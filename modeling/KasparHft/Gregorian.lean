import Mathlib.Data.Nat.Notation
import Mathlib.Order.Basic
import Mathlib.Tactic.Common

/-!
# The Gregorian calendar

A date carries that there is such a day.  The date some days after another is found month by
month.  As a number YYYYMMDD dates are in the order of the days, but the numbers of two dates
differ as the days do only within a month.
-/

namespace Gregorian

def isLeap (year : ℕ) : Bool := year % 4 = 0 ∧ (year % 100 ≠ 0 ∨ year % 400 = 0)

def daysInMonth (year month : ℕ) : ℕ :=
  if month = 2 then if isLeap year then 29 else 28
  else if month = 4 ∨ month = 6 ∨ month = 9 ∨ month = 11 then 30
  else 31

/-- There is such a day. -/
structure Valid (year month day : ℕ) : Prop where
  month_pos : 0 < month
  month_le : month ≤ 12
  day_pos : 0 < day
  day_le : day ≤ daysInMonth year month

theorem valid_iff {year month day : ℕ} : 0 < month ∧ month ≤ 12 ∧ 0 < day ∧
    day ≤ daysInMonth year month ↔ Valid year month day :=
  ⟨fun ⟨hpos, hle, hday, hlast⟩ => ⟨hpos, hle, hday, hlast⟩,
    fun h => ⟨h.month_pos, h.month_le, h.day_pos, h.day_le⟩⟩

instance (year month day : ℕ) : Decidable (Valid year month day) := decidable_of_iff _ valid_iff

structure Date where
  year : ℕ
  month : ℕ
  day : ℕ
  valid : Valid year month day

theorem daysInMonth_mem (year month : ℕ) :
    28 ≤ daysInMonth year month ∧ daysInMonth year month ≤ 31 := by
  unfold daysInMonth
  split_ifs <;> omega

theorem Valid.add {year month day n : ℕ} (h : Valid year month day)
    (hn : day + n ≤ daysInMonth year month) : Valid year month (day + n) :=
  ⟨h.month_pos, h.month_le, Nat.add_pos_left h.day_pos n, hn⟩

theorem valid_first {year month : ℕ} (hpos : 0 < month) (hle : month ≤ 12) : Valid year month 1 :=
  ⟨hpos, hle, Nat.one_pos, by have := daysInMonth_mem year month; omega⟩

theorem valid_january (year : ℕ) : Valid year 1 1 := valid_first (by omega) (by omega)

namespace Date

/-- The first of the next month. -/
def firstOfNext (d : Date) : Date :=
  if h : d.month < 12 then ⟨d.year, d.month + 1, 1, valid_first (Nat.succ_pos _) h⟩
  else ⟨d.year + 1, 1, 1, valid_january _⟩

/-- How many days are left in the month. -/
def left (d : Date) : ℕ := daysInMonth d.year d.month - d.day

def afterFuel : ℕ → Date → ℕ → Date
  | 0, d, _ => d
  | fuel + 1, d, n =>
      if h : d.day + n ≤ daysInMonth d.year d.month then
        ⟨d.year, d.month, d.day + n, d.valid.add h⟩
      else afterFuel fuel d.firstOfNext (n - d.left - 1)

/-- The date `n` days later. -/
def after (d : Date) (n : ℕ) : Date := afterFuel (n + 1) d n

/-- YYYYMMDD. -/
def number (d : Date) : ℕ := d.year * 10000 + d.month * 100 + d.day

/-- Months are counted through. -/
def monthIndex (d : Date) : ℕ := d.year * 12 + d.month

/-! ### Days later -/

theorem left_lt {d : Date} {n : ℕ} (h : ¬ d.day + n ≤ daysInMonth d.year d.month) :
    d.left < n := by
  have := d.valid.day_le
  unfold left
  omega

theorem afterFuel_eq {fuel : ℕ} (d : Date) {n : ℕ} (h : n < fuel) :
    afterFuel fuel d n = d.after n := by
  unfold after
  induction n using Nat.strongRecOn generalizing fuel d with
  | ind n ih =>
      cases fuel with
      | zero => omega
      | succ fuel =>
          rw [afterFuel, afterFuel]
          split
          next => rfl
          next hlate =>
            have hleft := left_lt hlate
            have hlt : n - d.left - 1 < n := by omega
            rw [ih _ hlt _ (by omega), ih _ hlt _ hlt]

/-- In the same month. -/
theorem after_of_le {d : Date} {n : ℕ} (h : d.day + n ≤ daysInMonth d.year d.month) :
    d.after n = ⟨d.year, d.month, d.day + n, d.valid.add h⟩ := by
  rw [after, afterFuel, dif_pos h]

/-- In a later month. -/
theorem after_of_lt {d : Date} {n : ℕ} (h : ¬ d.day + n ≤ daysInMonth d.year d.month) :
    d.after n = d.firstOfNext.after (n - d.left - 1) := by
  have hleft := left_lt h
  rw [after, afterFuel, dif_neg h]
  exact afterFuel_eq _ (by omega)

theorem after_after (d : Date) (m n : ℕ) : (d.after m).after n = d.after (m + n) := by
  induction m using Nat.strongRecOn generalizing d with
  | ind m ih =>
      by_cases hm : d.day + m ≤ daysInMonth d.year d.month
      · by_cases hn : d.day + m + n ≤ daysInMonth d.year d.month
        · rw [after_of_le hm, after_of_le hn, after_of_le (by rwa [← Nat.add_assoc])]
          simp only [Nat.add_assoc]
        · rw [after_of_le hm, after_of_lt hn, after_of_lt (d := d) (by rwa [← Nat.add_assoc])]
          have hleft : n - (daysInMonth d.year d.month - (d.day + m)) - 1 =
              m + n - (daysInMonth d.year d.month - d.day) - 1 := by omega
          exact congrArg (after _) hleft
      · have hleft := left_lt hm
        rw [after_of_lt hm, after_of_lt (n := m + n) (by omega), ih _ (by omega)]
        exact congrArg (after _) (by omega)

example : ((⟨2020, 1, 1, valid_january 2020⟩ : Date).after 60).number = 20200301 := by decide

/-! ### The numbers of dates -/

theorem monthIndex_firstOfNext (d : Date) : d.firstOfNext.monthIndex = d.monthIndex + 1 := by
  have := d.valid.month_le
  unfold firstOfNext monthIndex
  split <;> dsimp only <;> omega

theorem day_firstOfNext (d : Date) : d.firstOfNext.day = 1 := by
  unfold firstOfNext
  split <;> rfl

/-- From the last of a month to the first of the next the number grows by more than a day. -/
theorem number_firstOfNext (d : Date) : d.number + d.left + 1 < d.firstOfNext.number := by
  have := d.valid.month_le
  have := d.valid.day_le
  have := daysInMonth_mem d.year d.month
  unfold firstOfNext number left
  split <;> dsimp only <;> omega

/-- **The number grows as the days do within the month, and by more beyond it.** -/
theorem number_after (d : Date) (n : ℕ) :
    (d.after n).monthIndex = d.monthIndex ∧ (d.after n).number = d.number + n ∨
      d.monthIndex < (d.after n).monthIndex ∧ d.number + n < (d.after n).number := by
  induction n using Nat.strongRecOn generalizing d with
  | ind n ih =>
      by_cases hn : d.day + n ≤ daysInMonth d.year d.month
      · rw [after_of_le hn]
        exact .inl ⟨rfl, by simp only [number]; omega⟩
      · have hleft := left_lt hn
        have hnumber := number_firstOfNext d
        have hindex := monthIndex_firstOfNext d
        rw [after_of_lt hn]
        right
        rcases ih (n - d.left - 1) (by omega) d.firstOfNext with h | h <;> omega

theorem number_le_after (d : Date) (n : ℕ) : d.number + n ≤ (d.after n).number := by
  rcases number_after d n with h | h <;> omega

theorem number_lt_iff (d : Date) {m n : ℕ} : (d.after m).number < (d.after n).number ↔ m < n := by
  constructor
  · intro h
    by_contra hle
    have hgrow := number_le_after (d.after n) (m - n)
    rw [after_after, Nat.add_sub_of_le (by omega)] at hgrow
    omega
  · intro h
    have hgrow := number_le_after (d.after m) (n - m)
    rw [after_after, Nat.add_sub_of_le (by omega)] at hgrow
    omega

theorem number_inj (d : Date) {m n : ℕ} : (d.after m).number = (d.after n).number ↔ m = n := by
  constructor
  · intro h
    have hmn := number_lt_iff d (m := m) (n := n)
    have hnm := number_lt_iff d (m := n) (n := m)
    omega
  · exact fun h => h ▸ rfl

theorem eq_of_monthIndex_eq {d d' : Date} (h : d.monthIndex = d'.monthIndex) :
    d.year = d'.year ∧ d.month = d'.month := by
  have := d.valid.month_pos
  have := d'.valid.month_pos
  have := d.valid.month_le
  have := d'.valid.month_le
  unfold monthIndex at h
  omega

/-- A month has 28 days at least. -/
theorem monthIndex_after_le (d : Date) (n : ℕ) :
    28 * (d.after n).monthIndex ≤ 28 * d.monthIndex + d.day + n := by
  induction n using Nat.strongRecOn generalizing d with
  | ind n ih =>
      by_cases hn : d.day + n ≤ daysInMonth d.year d.month
      · rw [after_of_le hn]
        dsimp only [monthIndex]
        omega
      · have hleft := left_lt hn
        have hindex := monthIndex_firstOfNext d
        have hmonth := daysInMonth_mem d.year d.month
        have hlater := ih (n - d.left - 1) (by omega) d.firstOfNext
        rw [after_of_lt hn]
        rw [day_firstOfNext, hindex] at hlater
        unfold left at *
        omega

end Date

end Gregorian
