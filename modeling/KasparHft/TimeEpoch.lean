import KasparHft.Time
import Mathlib.Tactic.LinearCombination

/-!
# Times and nanoseconds since 1970

Comparing times is comparing the nanoseconds they stand for.  Subtracting them is not where the
dates are of different months, because the numbers YYYYMMDD are subtracted; and `add_micros` takes
midnight for a time of the day before, and goes on by one day at most.
-/

namespace KasparHft.Chutil.Time

open Gregorian

variable {t t2 : Time} {m n : ℕ}

theorem toInt_toInt64 {x : UInt64} (h : x.toNat < 2 ^ 63) : x.toInt64.toInt = x.toNat :=
  BitVec.toInt_eq_toNat_of_lt (x := x.toBitVec) (by
    rw [UInt64.toNat_toBitVec]
    omega)

theorem number_dateAt_lt (h : n < 2 ^ 65) : (dateAt n).number < 40001232 := by
  have := dateAt_mem h
  unfold Date.number
  omega

theorem IsAt.toInt_ns (h : t.IsAt n) : t.ns.toInt64.toInt = ↑(n % dayNs) := by
  have hlt : n % dayNs < 86400000000000 := Nat.mod_lt _ (by decide)
  rw [← h.ns] at hlt ⊢
  exact toInt_toInt64 (by omega)

theorem IsAt.toInt_date (h : t.IsAt n) (hn : n < 2 ^ 65) :
    t.date.toInt32.toInt = (dateAt n).number := by
  have hlt := number_dateAt_lt hn
  rw [← h.date] at hlt ⊢
  exact toInt_toInt32 (by omega)

/-- **`operator-`**: the numbers of the dates are subtracted. -/
theorem IsAt.toInt_sub (h : t.IsAt m) (h2 : t2.IsAt n) (hm : m < 2 ^ 65) (hn : n < 2 ^ 65) :
    (t.sub t2).toInt = ((((dateAt m).number : ℤ) - (dateAt n).number) * dayNs +
      ((m % dayNs : ℕ) - (n % dayNs : ℕ))).bmod (2 ^ 64) := by
  have hmlt : m % dayNs < 86400000000000 := Nat.mod_lt _ (by decide)
  have hnlt : n % dayNs < 86400000000000 := Nat.mod_lt _ (by decide)
  have hmnum := number_dateAt_lt hm
  have hnnum := number_dateAt_lt hn
  have hns : (t.ns.toInt64 - t2.ns.toInt64).toInt = (m % dayNs : ℕ) - (n % dayNs : ℕ) := by
    rw [Int64.toInt_sub, h.toInt_ns, h2.toInt_ns]
    exact Int.bmod_eq_of_le (by omega) (by omega)
  unfold sub
  dsimp only
  split
  next hdate =>
    have hnumber : (dateAt m).number = (dateAt n).number := by
      rw [← h.date, ← h2.date, hdate]
    rw [hns, hnumber, Int.sub_self, Int.zero_mul, Int.zero_add]
    exact (Int.bmod_eq_of_le (by omega) (by omega)).symm
  next =>
    have hdate : (t.date.toInt32 - t2.date.toInt32).toInt =
        (dateAt m).number - (dateAt n).number := by
      rw [Int32.toInt_sub, h.toInt_date hm, h2.toInt_date hn]
      exact Int.bmod_eq_of_le (by omega) (by omega)
    have hday : hours24Ns.toInt64.toInt = dayNs := by decide
    have hsigned (x y : Int64) (z : UInt64) :
        (x.toUInt64 * z + y.toUInt64).toInt64 = x * z.toInt64 + y := rfl
    rw [hsigned, Int64.toInt_add, Int64.toInt_mul, Int32.toInt_toInt64, hdate, hday, hns,
      Int.bmod_add_bmod]

/-- The month that the code finds of a time. -/
theorem IsAt.month_eq_iff (h : t.IsAt m) (h2 : t2.IsAt n) (hm : m < 2 ^ 65) (hn : n < 2 ^ 65) :
    t.getYear = t2.getYear ∧ t.getMonth = t2.getMonth ↔
      (dateAt m).monthIndex = (dateAt n).monthIndex := by
  have hmmem := dateAt_mem hm
  have hnmem := dateAt_mem hn
  have hdate := h.date
  have hdate2 := h2.date
  unfold Date.number at hdate hdate2
  unfold Date.monthIndex getYear getMonth
  generalize dateAt m = d at *
  generalize dateAt n = d2 at *
  simp only [← UInt32.toNat_inj, UInt32.toNat_div, UInt32.toNat_mod, UInt32.reduceToNat]
  omega

/-- The days between two dates, and their numbers. -/
theorem number_sub_iff (hle : n ≤ m) :
    (dateAt m).number = (dateAt n).number + (m / dayNs - n / dayNs) ↔
      (dateAt m).monthIndex = (dateAt n).monthIndex := by
  have hdays : dateAt m = (dateAt n).after (m / dayNs - n / dayNs) := by
    rw [dateAt, dateAt, Date.after_after, Nat.add_sub_of_le (Nat.div_le_div_right hle)]
  rw [hdays]
  rcases (dateAt n).number_after (m / dayNs - n / dayNs) with h | h <;> omega

/-- Days that do not agree are not hidden by an overflow: a day has few factors of two. -/
theorem eq_of_bmod_days {x y s : ℤ} (hx : -140737488355328 < x - y) (hy : x - y < 140737488355328)
    (h : (x * dayNs + s).bmod (2 ^ 64) = y * dayNs + s) : x = y := by
  obtain ⟨k, hk⟩ := Int.dvd_bmod_sub_self (x := x * dayNs + s) (m := 2 ^ 64)
  have hday : (dayNs : ℤ) = 86400000000000 := rfl
  have hword : ((2 ^ 64 : ℕ) : ℤ) = 18446744073709551616 := by decide
  rw [h, hday, hword] at hk
  have hodd : 1318359375 * (y - x) = 281474976710656 * k :=
    Int.eq_of_mul_eq_mul_left (by decide : (65536 : ℤ) ≠ 0) (by linear_combination hk)
  obtain ⟨j, hj⟩ := Int.dvd_of_dvd_mul_right_of_gcd_one ⟨k, hodd⟩ (by decide)
  clear h hk hodd
  omega

/-- **The difference** is right within a month, and nowhere else. -/
theorem IsAt.sub_eq_iff (h : t.IsAt m) (h2 : t2.IsAt n) (hm : m < 2 ^ 64) (hle : n ≤ m) :
    (t.sub t2).toInt = m - n ↔ (dateAt m).monthIndex = (dateAt n).monthIndex := by
  have hmnum := number_dateAt_lt (n := m) (by omega)
  have hnnum := number_dateAt_lt (n := n) (by omega)
  have hmdays : m / dayNs < 2 ^ 20 := by
    unfold dayNs
    omega
  have hdays : n / dayNs ≤ m / dayNs := Nat.div_le_div_right hle
  have hdiff : (m : ℤ) - n =
      ((m / dayNs : ℕ) - (n / dayNs : ℕ)) * dayNs + ((m % dayNs : ℕ) - (n % dayNs : ℕ)) := by
    unfold dayNs
    omega
  rw [h.toInt_sub h2 (by omega) (by omega), hdiff, ← number_sub_iff hle]
  constructor
  · intro heq
    generalize m / dayNs = dm at *
    generalize n / dayNs = dn at *
    have hnumber := eq_of_bmod_days (by omega) (by omega) heq
    omega
  · intro hnumber
    have hmonth := (number_sub_iff hle).mp hnumber
    obtain ⟨hyear, hmonth⟩ := Date.eq_of_monthIndex_eq hmonth
    have hday : (dateAt m).day ≤ 31 := (dateAt_mem (n := m) (by omega)).2.2.2.2
    have hmlt : m % dayNs < 86400000000000 := Nat.mod_lt _ (by decide)
    have hnlt : n % dayNs < 86400000000000 := Nat.mod_lt _ (by decide)
    have hmonthly : m / dayNs - n / dayNs ≤ 31 := by
      unfold Date.number at hnumber
      omega
    have hvalue : ((dateAt m).number : ℤ) - (dateAt n).number =
        (m / dayNs : ℕ) - (n / dayNs : ℕ) := by omega
    have hday : (dayNs : ℤ) = 86400000000000 := rfl
    rw [hvalue, hday]
    exact Int.bmod_eq_of_le (by omega) (by omega)

/-! ### Adding microseconds -/

/-- Some microseconds later it is before midnight, or after it and before the next. -/
def InReach (t : Time) (us : ℕ) : Prop :=
  t.ns.toNat + 1000 * us < dayNs ∨
    dayNs < t.ns.toNat + 1000 * us ∧ t.ns.toNat + 1000 * us < 2 * dayNs

section Micros

variable {boost : Boost} {us : Int64}

theorem toNat_micros (h : t.IsAt n) (hus : 0 ≤ us.toInt) (hsum : n + 1000 * us.toInt.toNat < 2 ^ 64) :
    (t.ns + (us * 1000).toUInt64).toNat = n % dayNs + 1000 * us.toInt.toNat := by
  have hle : n % dayNs ≤ n := Nat.mod_le _ _
  have hmul : (us * 1000).toUInt64 = us.toUInt64 * 1000 := rfl
  rw [hmul]
  simp only [UInt64.toNat_add, UInt64.toNat_mul, UInt64.reduceToNat, toNat_toUInt64 hus, h.ns]
  omega

/-- Up to midnight, and midnight with it, the date stays. -/
theorem addMicros_today (h : t.IsAt n) (hus : 0 ≤ us.toInt)
    (hsum : n + 1000 * us.toInt.toNat < 2 ^ 64) (hle : n % dayNs + 1000 * us.toInt.toNat ≤ dayNs) :
    t.addMicros boost us = some (ofDay t.date (t.ns + (us * 1000).toUInt64)) := by
  unfold addMicros
  dsimp only
  rw [if_neg]
  rw [gt_iff_lt, UInt64.lt_iff_toNat_lt, toNat_micros h hus hsum]
  exact not_lt.mpr hle

/-- Beyond it one day is added. -/
theorem addMicros_tomorrow (h : t.IsAt n) (hboost : boost.Implements) (hus : 0 ≤ us.toInt)
    (hsum : n + 1000 * us.toInt.toNat < 2 ^ 64) (hlt : dayNs < n % dayNs + 1000 * us.toInt.toNat) :
    ∃ t', t.addMicros boost us = some t' ∧
      t'.IsAt (n / dayNs * dayNs + (n % dayNs + 1000 * us.toInt.toNat) % dayNs + dayNs) := by
  have hday : hours24Ns.toNat = dayNs := rfl
  have hrest : ((t.ns + (us * 1000).toUInt64) % hours24Ns).toNat =
      (n % dayNs + 1000 * us.toInt.toNat) % dayNs := by
    rw [UInt64.toNat_mod, toNat_micros h hus hsum, hday]
  have hsame := h.ofDay ((t.ns + (us * 1000).toUInt64) % hours24Ns)
    (by rw [hrest]; exact Nat.mod_lt _ (by decide))
  rw [hrest] at hsame
  have hnext := hsame.addDays hboost 1 (by
    unfold dayNs at *
    omega)
  rw [Nat.one_mul] at hnext
  unfold addMicros
  dsimp only
  rw [if_pos]
  · exact hnext
  · rw [gt_iff_lt, UInt64.lt_iff_toNat_lt, toNat_micros h hus hsum, hday]
    exact hlt

/-- **`add_micros`** finds the time it means, if it is in reach, and else it does not. -/
theorem addMicros_iff (hboost : boost.Implements) (a : UInt64) (hus : 0 ≤ us.toInt) :
    (∃ c : UInt64, c.toNat = a.toNat + 1000 * us.toInt.toNat ∧
      ∃ t, (fromEpoch a).addMicros boost us = some t ∧ t.eq (fromEpoch c) = true) ↔
    (fromEpoch a).InReach us.toInt.toNat ∧ a.toNat + 1000 * us.toInt.toNat < 2 ^ 64 := by
  have ha := fromEpoch_isAt a
  unfold InReach
  rw [ha.ns]
  constructor
  · rintro ⟨c, hc, t, hadd, heq⟩
    have hsum : a.toNat + 1000 * us.toInt.toNat < 2 ^ 64 := hc ▸ c.toNat_lt
    refine ⟨?_, hsum⟩
    rcases Nat.lt_trichotomy (a.toNat % dayNs + 1000 * us.toInt.toNat) dayNs with hlt | hmid | hgt
    · exact .inl hlt
    · -- at midnight the nanoseconds are those of a whole day
      rw [addMicros_today ha hus hsum hmid.le] at hadd
      obtain rfl := Option.some.inj hadd
      have hboth : (fromEpoch c).date = (fromEpoch a).date ∧
          (fromEpoch c).ns = (fromEpoch a).ns + (us * 1000).toUInt64 := by
        simpa [eq, ofDay] using heq
      have hwhole := toNat_micros ha hus hsum
      rw [← hboth.2, (fromEpoch_isAt c).ns, hmid] at hwhole
      exact absurd hwhole (Nat.mod_lt _ (by decide)).ne
    · obtain ⟨t', ht', hat⟩ := addMicros_tomorrow ha hboost hus hsum hgt
      obtain rfl : t' = t := Option.some.inj (ht'.symm.trans hadd)
      have hsame := (hat.eq_iff (fromEpoch_isAt c)).mp heq
      rw [hc] at hsame
      unfold dayNs at *
      omega
  · rintro ⟨hreach, hsum⟩
    have hc : (UInt64.ofNat (a.toNat + 1000 * us.toInt.toNat)).toNat =
        a.toNat + 1000 * us.toInt.toNat := UInt64.toNat_ofNat_of_lt' hsum
    refine ⟨UInt64.ofNat (a.toNat + 1000 * us.toInt.toNat), hc, ?_⟩
    have hat := fromEpoch_isAt (UInt64.ofNat (a.toNat + 1000 * us.toInt.toNat))
    rw [hc] at hat
    rcases hreach with hlt | ⟨hgt, hlt⟩
    · have htoday := ha.ofDay ((fromEpoch a).ns + (us * 1000).toUInt64)
        (by rwa [toNat_micros ha hus hsum])
      refine ⟨_, addMicros_today ha hus hsum hlt.le, (htoday.eq_iff hat).mpr ?_⟩
      rw [toNat_micros ha hus hsum]
      unfold dayNs at *
      omega
    · obtain ⟨t, hadd, htomorrow⟩ := addMicros_tomorrow ha hboost hus hsum hgt
      refine ⟨t, hadd, (htomorrow.eq_iff hat).mpr ?_⟩
      unfold dayNs at *
      omega

end Micros

/-! ### Agreement -/

/-- **Where times agree with the nanoseconds.**  Their comparisons do everywhere, their difference
    within a month, and `add_micros` as long as it does not arrive at midnight or go beyond the
    next day. -/
theorem times_agree_iff {boost : Boost} (hboost : boost.Implements) {a b : UInt64} (hle : b ≤ a)
    {d : Int64} (hd : 0 ≤ d.toInt) :
    (((fromEpoch a).sub (fromEpoch b)).toInt = a.toNat - b.toNat ↔
      (fromEpoch a).getYear = (fromEpoch b).getYear ∧
        (fromEpoch a).getMonth = (fromEpoch b).getMonth) ∧
    (fromEpoch a).lt (fromEpoch b) = false ∧
    ((fromEpoch a).eq (fromEpoch b) = true ↔ a = b) ∧
    ((∃ c : UInt64, c.toNat = a.toNat + 1000 * d.toInt.toNat ∧
        ∃ t, (fromEpoch a).addMicros boost d = some t ∧ t.eq (fromEpoch c) = true) ↔
      (fromEpoch a).InReach d.toInt.toNat ∧ a.toNat + 1000 * d.toInt.toNat < 2 ^ 64) := by
  have ha := fromEpoch_isAt a
  have hb := fromEpoch_isAt b
  have halt := a.toNat_lt
  have hblt := b.toNat_lt
  have hnat : b.toNat ≤ a.toNat := UInt64.le_iff_toNat_le.mp hle
  refine ⟨?_, ?_, ?_, addMicros_iff hboost a hd⟩
  · rw [ha.sub_eq_iff hb halt hnat, ha.month_eq_iff hb (by omega) (by omega)]
  · rw [Bool.eq_false_iff, Ne, ha.lt_iff hb]
    exact not_lt.mpr hnat
  · rw [ha.eq_iff hb, UInt64.toNat_inj]

/-- From the second of January to the third, and five microseconds on. -/
theorem times_agree_january :
    ((fromEpoch 172800000000000).sub (fromEpoch 86400000000000)).toInt = 86400000000000 ∧
      (fromEpoch 172800000000000).lt (fromEpoch 86400000000000) = false ∧
      ∃ c : UInt64, c.toNat = 172800000005000 ∧
        ∃ t, (fromEpoch 172800000000000).addMicros Boost.calendar 5 = some t ∧
          t.eq (fromEpoch c) = true := by
  obtain ⟨hsub, hlt, -, hadd⟩ := times_agree_iff Boost.calendar_implements (a := 172800000000000)
    (b := 86400000000000) (by decide) (d := 5) (by decide)
  exact ⟨hsub.mpr (by decide +kernel), hlt, hadd.mpr (by
    unfold InReach
    decide +kernel)⟩

/-- From the last of January to the first of February it finds seventy days. -/
theorem sub_next_month_wrong :
    ((fromEpoch 2678400000000000).sub (fromEpoch 2592000000000000)).toInt ≠
      2678400000000000 - 2592000000000000 := by
  decide +kernel

end KasparHft.Chutil.Time
