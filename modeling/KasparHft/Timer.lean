import KasparHft.Machine
import KasparHft.Time

/-!
# Alarms

`Timer.cpp`, `AlarmClockSub.hpp`: actors subscribe to alarms at a time of the day or after a delay,
once or again and again.  The clock is the time of the last burst of market data; at each burst
the list of subscriptions is gone through, and those whose time to wake up is not after the clock
are sent an alarm.

Subscriptions to time-outs, which count bursts and are kept in a list of their own, are left out.
-/

namespace KasparHft.Mtim

open Chutil (Time)

/-- `AlarmClockSub`.  The hours and minutes of a relative one are not used. -/
structure AlarmClockSub (α : Type) where
  (h m s ms : Int32)
  (isRelative adjusted periodic : Bool)
  timToWakeUp : Time
  timerId : Int32
  sym : UInt32
  sender : α
deriving DecidableEq

/-- `Alarm`, and whom it is sent to. -/
structure Alarm (α : Type) where
  timerId : Int32
  currtim : Time
  sym : UInt32
  recipient : α
deriving DecidableEq

variable {α : Type}

/-- `AlarmClockSub(_h, _m, _s, _ms, _timer_id)`, of a sender. -/
def AlarmClockSub.absolute (h m s ms timerId : Int32) (sender : α) : Option (AlarmClockSub α) :=
  if h < 24 ∧ m < 60 ∧ s < 60 then
    some ⟨h, m, s, ms, false, false, false, ⟨0, 0, 0⟩, timerId, 4294967295, sender⟩
  else none

/-- `AlarmClockSub(_s, _ms, _timer_id, _periodic)`, of a sender. -/
def AlarmClockSub.relative (s ms timerId : Int32) (periodic : Bool) (sender : α) :
    AlarmClockSub α :=
  ⟨0, 0, s, ms, true, false, periodic, ⟨0, 0, 0⟩, timerId, 4294967295, sender⟩

/-- With the time it was adjusted to. -/
def AlarmClockSub.armed (m : AlarmClockSub α) (timToWakeUp : Time) : AlarmClockSub α :=
  { m with adjusted := true, timToWakeUp }

section Handlers

variable (boost : Time.Boost)

/-- `dt`: the hour, the minute and the second are compared, the milliseconds are not. -/
def AlarmClockSub.dateToWakeUp (m : AlarmClockSub α) (tim : Time) : Option UInt32 :=
  if tim.hour > m.h ∨ tim.hour = m.h ∧ tim.minute > m.m ∨
      tim.hour = m.h ∧ tim.minute = m.m ∧ tim.second ≥ m.s then
    (tim.nextDay boost).map fun t => t.date
  else some tim.date

/-- What `adjustToCurrentTime` finds for `tim_to_wake_up`. -/
def AlarmClockSub.findTimToWakeUp (m : AlarmClockSub α) (tim : Time) : Option Time :=
  if m.isRelative then do
    (← tim.add boost (m.s * 1000)).add boost m.ms
  else do
    let dt ← m.dateToWakeUp boost tim
    (← (Time.ofDay dt 0).add boost ((m.h * 3600 + m.m * 60 + m.s) * 1000)).add boost m.ms

/-- `adjustToCurrentTime`. -/
def AlarmClockSub.adjustToCurrentTime (m : AlarmClockSub α) (tim : Time) :
    Option (AlarmClockSub α) :=
  if m.adjusted then some m else (m.findTimToWakeUp boost tim).map m.armed

/-- `resetEvents`. -/
def AlarmClockSub.resetEvents (m : AlarmClockSub α) : AlarmClockSub α :=
  { m with adjusted := false }

/-- The alarm that a subscription is sent. -/
def AlarmClockSub.alarm (m : AlarmClockSub α) (currtim : Time) : Alarm α :=
  ⟨m.timerId, currtim, m.sym, m.sender⟩

/-- What the loop does with one subscription: whether it stays in the list, and what is sent. -/
def visit (currtim : Time) (m : AlarmClockSub α) :
    Option (Option (AlarmClockSub α) × List (Alarm α)) := do
  let m ← m.adjustToCurrentTime boost currtim
  if m.timToWakeUp.le currtim then
    if m.periodic then some (some m.resetEvents, [m.alarm currtim])
    else some (none, [m.alarm currtim])
  else some (some m, [])

/-- `processAlarmClock`. -/
def processAlarmClock (currtim : Time) :
    List (AlarmClockSub α) → Option (List (AlarmClockSub α) × List (Alarm α))
  | [] => some ([], [])
  | m :: alarmList => do
      let (kept, sent) ← visit boost currtim m
      let (alarmList, out) ← processAlarmClock currtim alarmList
      some (kept.toList ++ alarmList, sent ++ out)

/-- `Timer`. -/
structure Timer (α : Type) where
  alarmList : List (AlarmClockSub α)
  currtim : Time
deriving DecidableEq

/-- It has no alarms, and does not know the time. -/
def Timer.initial : Timer α := ⟨[], ⟨0, 0, 0⟩⟩

inductive Event (α : Type) where
  | eob2 (txtim : UInt64)
  | alarmSub (m : AlarmClockSub α)

/-- `eob2_handler` and `alarm_sub_handler`. -/
def step (timer : Timer α) : Event α → Option (Timer α × List (Alarm α))
  | .eob2 txtim =>
      let currtim := Time.fromEpoch txtim
      if txtim > 0 ∧ currtim.isValid then do
        let (alarmList, out) ← processAlarmClock boost currtim timer.alarmList
        some (⟨alarmList, currtim⟩, out)
      else none
  | .alarmSub m =>
      let adjusted :=
        if timer.currtim.isValid then m.adjustToCurrentTime boost timer.currtim else some m
      adjusted.map fun m => ({ timer with alarmList := timer.alarmList ++ [m] }, [])

end Handlers

/-! ### The time to wake up -/

/-- A subscription as a constructor leaves it, with a time of the day or a delay that is not
    negative. -/
structure AlarmClockSub.Proper (m : AlarmClockSub α) : Prop where
  s : 0 ≤ m.s.toInt
  ms : 0 ≤ m.ms.toInt
  time : m.isRelative = false → 0 ≤ m.h.toInt ∧ m.h.toInt < 24 ∧ 0 ≤ m.m.toInt ∧ m.m.toInt < 60 ∧
    m.s.toInt < 60 ∧ m.ms.toInt < 1000 ∧ m.periodic = false

instance (m : AlarmClockSub α) : Decidable m.Proper :=
  decidable_of_iff (0 ≤ m.s.toInt ∧ 0 ≤ m.ms.toInt ∧ (m.isRelative = false →
      0 ≤ m.h.toInt ∧ m.h.toInt < 24 ∧ 0 ≤ m.m.toInt ∧ m.m.toInt < 60 ∧
        m.s.toInt < 60 ∧ m.ms.toInt < 1000 ∧ m.periodic = false))
    ⟨fun ⟨hs, hms, htime⟩ => ⟨hs, hms, htime⟩, fun h => ⟨h.s, h.ms, h.time⟩⟩

/-- The delay of a relative one, in nanoseconds. -/
def AlarmClockSub.delay (m : AlarmClockSub α) : ℕ :=
  m.s.toInt.toNat * 1000000000 + m.ms.toInt.toNat * 1000000

/-- The time of the day of an absolute one, in seconds. -/
def AlarmClockSub.seconds (m : AlarmClockSub α) : ℕ :=
  m.h.toInt.toNat * 3600 + m.m.toInt.toNat * 60 + m.s.toInt.toNat

/-- Its `s * 1000` is no more than an `int` holds. -/
def AlarmClockSub.Fits (m : AlarmClockSub α) : Prop := m.s.toInt ≤ 2147483

instance (m : AlarmClockSub α) : Decidable m.Fits := inferInstanceAs (Decidable (_ ≤ _))

/-- When it wakes up, if the clock is `n` nanoseconds after the beginning of 1970. -/
def AlarmClockSub.wakeUp (m : AlarmClockSub α) (n : ℕ) : ℕ :=
  if m.isRelative then n / 1000000 * 1000000 + m.delay
  else n / Time.dayNs * Time.dayNs + m.seconds * 1000000000 + m.ms.toInt.toNat * 1000000 +
    if m.seconds ≤ n % Time.dayNs / 1000000000 then Time.dayNs else 0

variable {boost : Time.Boost} {m : AlarmClockSub α} {clock : Time} {n : ℕ}

theorem toInt_mul_of {x y : Int32} {a b : ℤ} (hx : x.toInt = a) (hy : y.toInt = b)
    (h0 : 0 ≤ a * b) (h : a * b < 2147483648) : (x * y).toInt = a * b := by
  rw [Int32.toInt_mul, hx, hy]
  exact Int.bmod_eq_of_le (by omega) (by omega)

theorem toInt_add_of {x y : Int32} {a b : ℤ} (hx : x.toInt = a) (hy : y.toInt = b)
    (h0 : 0 ≤ a + b) (h : a + b < 2147483648) : (x + y).toInt = a + b := by
  rw [Int32.toInt_add, hx, hy]
  exact Int.bmod_eq_of_le (by omega) (by omega)

/-- **The time to wake up that is found**, of a relative one. -/
theorem find_relative (hboost : boost.Implements) (hclock : clock.IsAt n) (hn : n < 2 ^ 64)
    (hproper : m.Proper) (hfits : m.Fits) (hrel : m.isRelative = true) :
    ∃ t, m.findTimToWakeUp boost clock = some t ∧ t.IsAt (m.wakeUp n) := by
  have hms := m.ms.toInt_lt
  have hs0 := hproper.s
  unfold AlarmClockSub.Fits at hfits
  have hs : (m.s * 1000).toInt = m.s.toInt * 1000 := toInt_mul_of rfl rfl (by omega) (by omega)
  obtain ⟨t, hadd, hat⟩ := hclock.add (by omega) hboost (m.s * 1000) (by omega)
  rw [hs] at hat
  obtain ⟨t', hadd', hat'⟩ := hat.add (by omega) hboost m.ms hproper.ms
  refine ⟨t', ?_, ?_⟩
  · rw [AlarmClockSub.findTimToWakeUp, if_pos hrel, hadd]
    exact hadd'
  · have hsum : m.wakeUp n = (n / 1000000 * 1000000 + (m.s.toInt * 1000).toNat * 1000000) /
        1000000 * 1000000 + m.ms.toInt.toNat * 1000000 := by
      rw [AlarmClockSub.wakeUp, if_pos hrel, AlarmClockSub.delay]
      omega
    rwa [hsum]

/-- What is found to have passed: the second it is in, as much of it as is left. -/
theorem passed_iff (hclock : clock.IsAt n) (hproper : m.Proper) (habs : m.isRelative = false) :
    (clock.hour > m.h ∨ clock.hour = m.h ∧ clock.minute > m.m ∨
      clock.hour = m.h ∧ clock.minute = m.m ∧ clock.second ≥ m.s) ↔
    m.seconds ≤ n % Time.dayNs / 1000000000 := by
  obtain ⟨hhour, hmin, hsec⟩ := hclock.toInt_time
  obtain ⟨hh, hh24, hm, hm60, hs60, -⟩ := hproper.time habs
  have hs := hproper.s
  have hlt : n % Time.dayNs < 86400000000000 := Nat.mod_lt _ (by decide)
  simp only [gt_iff_lt, ge_iff_le, Int32.lt_iff_toInt_lt, Int32.le_iff_toInt_le, ← Int32.toInt_inj,
    hhour, hmin, hsec]
  unfold AlarmClockSub.seconds
  generalize n % Time.dayNs = r at *
  clear hhour hmin hsec
  have hhours : r / 3600000000000 = r / 60000000000 / 60 := by omega
  have hmins : r / 60000000000 = r / 1000000000 / 60 := by omega
  omega

/-- Midnight of the day of the alarm. -/
theorem dateToWakeUp_isAt (hboost : boost.Implements) (hclock : clock.IsAt n) (hn : n < 2 ^ 64)
    (hproper : m.Proper) (habs : m.isRelative = false) :
    ∃ dt, m.dateToWakeUp boost clock = some dt ∧
      (Time.ofDay dt 0).IsAt (n / Time.dayNs * Time.dayNs +
        if m.seconds ≤ n % Time.dayNs / 1000000000 then Time.dayNs else 0) := by
  have hzero : (0 : UInt64).toNat = 0 := rfl
  unfold AlarmClockSub.dateToWakeUp
  by_cases hpassed : m.seconds ≤ n % Time.dayNs / 1000000000
  · obtain ⟨next, hnext, hat⟩ := hclock.addDays hboost 1 (by
      unfold Time.dayNs
      omega)
    have hfirst := hat.ofDay 0 (by decide)
    rw [Nat.add_mul_div_right n 1 (by decide), Nat.add_mul, Nat.one_mul, hzero, Nat.add_zero]
      at hfirst
    refine ⟨next.date, ?_, ?_⟩
    · rw [if_pos ((passed_iff hclock hproper habs).mpr hpassed)]
      exact congrArg (Option.map fun t => t.date) hnext
    · rw [if_pos hpassed]
      exact hfirst
  · refine ⟨clock.date, if_neg (mt (passed_iff hclock hproper habs).mp hpassed), ?_⟩
    rw [if_neg hpassed]
    exact hclock.ofDay 0 (by decide)

/-- **The time to wake up that is found**, of an absolute one. -/
theorem find_absolute (hboost : boost.Implements) (hclock : clock.IsAt n) (hn : n < 2 ^ 64)
    (hproper : m.Proper) (habs : m.isRelative = false) :
    ∃ t, m.findTimToWakeUp boost clock = some t ∧ t.IsAt (m.wakeUp n) := by
  obtain ⟨hh, hh24, hm, hm60, hs60, hms1000, -⟩ := hproper.time habs
  have hs := hproper.s
  have hms := hproper.ms
  have hseconds : ((m.h * 3600 + m.m * 60 + m.s) * 1000).toInt = m.seconds * 1000 := by
    have hhour : (m.h * 3600).toInt = m.h.toInt * 3600 :=
      toInt_mul_of rfl rfl (by omega) (by omega)
    have hmin : (m.m * 60).toInt = m.m.toInt * 60 := toInt_mul_of rfl rfl (by omega) (by omega)
    have hboth := toInt_add_of hhour hmin (by omega) (by omega)
    have hall := toInt_add_of hboth (y := m.s) rfl (by omega) (by omega)
    have hms := toInt_mul_of hall (y := 1000) (b := 1000) rfl (by omega) (by omega)
    rw [hms, AlarmClockSub.seconds]
    omega
  obtain ⟨dt, hdt, hmidnight⟩ := dateToWakeUp_isAt hboost hclock hn hproper habs
  obtain ⟨t, hadd, hat⟩ := hmidnight.add (by
    unfold Time.dayNs
    split <;> omega) hboost ((m.h * 3600 + m.m * 60 + m.s) * 1000) (by omega)
  obtain ⟨t', hadd', hat'⟩ := hat.add (by
    rw [hseconds]
    unfold Time.dayNs AlarmClockSub.seconds
    split <;> omega) hboost m.ms hproper.ms
  refine ⟨t', ?_, ?_⟩
  · rw [AlarmClockSub.findTimToWakeUp, if_neg (by simp [habs]), hdt]
    simp only [Option.bind_eq_bind, Option.bind_some, hadd, hadd']
  · rw [hseconds] at hat'
    have hsum : m.wakeUp n = ((n / Time.dayNs * Time.dayNs +
        if m.seconds ≤ n % Time.dayNs / 1000000000 then Time.dayNs else 0) / 1000000 * 1000000 +
        ((m.seconds : ℤ) * 1000).toNat * 1000000) / 1000000 * 1000000 +
        m.ms.toInt.toNat * 1000000 := by
      rw [AlarmClockSub.wakeUp, if_neg (by simp [habs])]
      generalize n / Time.dayNs = day
      unfold Time.dayNs
      split <;> omega
    rwa [hsum]

/-- **The time to wake up that is found.** -/
theorem find_isAt (hboost : boost.Implements) (hclock : clock.IsAt n) (hn : n < 2 ^ 64)
    (hproper : m.Proper) (hfits : m.isRelative = true → m.Fits) :
    ∃ t, m.findTimToWakeUp boost clock = some t ∧ t.IsAt (m.wakeUp n) := by
  cases hrel : m.isRelative with
  | true => exact find_relative hboost hclock hn hproper (hfits hrel) hrel
  | false => exact find_absolute hboost hclock hn hproper hrel

/-! ### When an alarm is due -/

/-- When it is due, if the clock is `n` nanoseconds after the beginning of 1970: after the delay,
    or at the time of the day, on this day if it has not passed and else on the next. -/
def AlarmClockSub.due (m : AlarmClockSub α) (n : ℕ) : ℕ :=
  if m.isRelative then n + m.delay
  else
    let today := n / Time.dayNs * Time.dayNs + m.seconds * 1000000000 +
      m.ms.toInt.toNat * 1000000
    if n ≤ today then today else today + Time.dayNs

/-- The clock is in the second of the alarm, and the alarm has not passed. -/
def AlarmClockSub.InItsSecond (m : AlarmClockSub α) (clock : Time) : Prop :=
  clock.hour = m.h ∧ clock.minute = m.m ∧ clock.second = m.s ∧
    clock.breakUp.ns.toNat ≤ m.ms.toInt.toNat * 1000000

instance (m : AlarmClockSub α) (clock : Time) : Decidable (m.InItsSecond clock) :=
  inferInstanceAs (Decidable (_ ∧ _ ∧ _ ∧ _ ≤ _))

/-- **It wakes up when it is due** where the clock is at a whole millisecond, for a relative one,
    and where it is not in the second of the alarm with the alarm to come, for an absolute one;
    and nowhere else. -/
theorem wakeUp_eq_due_iff (hclock : clock.IsAt n) (hproper : m.Proper) :
    m.wakeUp n = m.due n ↔
      if m.isRelative then clock.ns.toNat % 1000000 = 0 else ¬ m.InItsSecond clock := by
  cases hrel : m.isRelative with
  | true =>
      rw [if_pos rfl, AlarmClockSub.wakeUp, AlarmClockSub.due, if_pos hrel, if_pos hrel, hclock.ns]
      unfold Time.dayNs
      omega
  | false =>
      obtain ⟨hhour, hmin, hsec⟩ := hclock.toInt_time
      obtain ⟨-, -, -, hns⟩ := hclock.breakUp_time
      obtain ⟨hh, hh24, hm, hm60, hs60, hms1000, -⟩ := hproper.time hrel
      have hs := hproper.s
      have hms := hproper.ms
      have hsame : m.InItsSecond clock ↔ n % Time.dayNs / 1000000000 = m.seconds ∧
          n % Time.dayNs % 1000000000 ≤ m.ms.toInt.toNat * 1000000 := by
        unfold AlarmClockSub.InItsSecond AlarmClockSub.seconds
        rw [hns]
        simp only [← Int32.toInt_inj, hhour, hmin, hsec]
        generalize n % Time.dayNs = r at *
        clear hhour hmin hsec hns
        have hhours : r / 3600000000000 = r / 60000000000 / 60 := by omega
        have hmins : r / 60000000000 = r / 1000000000 / 60 := by omega
        omega
      have hnot : ¬ m.isRelative = true := by simp [hrel]
      have hdivmod := Nat.div_add_mod' n Time.dayNs
      have hlt : n % Time.dayNs < Time.dayNs := Nat.mod_lt _ (by decide)
      rw [if_neg (by decide), AlarmClockSub.wakeUp, AlarmClockSub.due, if_neg hnot, if_neg hnot,
        hsame]
      dsimp only
      clear hsame hhour hmin hsec hns
      generalize n % Time.dayNs = r at *
      generalize n / Time.dayNs * Time.dayNs = midnight at *
      unfold Time.dayNs at *
      split <;> split <;> omega

end KasparHft.Mtim
