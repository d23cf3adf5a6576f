import KasparHft.MarketData
import Mathlib.Algebra.BigOperators.Group.Finset.Basic
import Mathlib.Algebra.Order.BigOperators.Group.Finset
import Mathlib.Algebra.Order.Ring.Rat
import Mathlib.Data.Rat.Floor

/-!
# Weighted prices of a point (`frame_kaspr/src/point.cpp`)

`w_bid` and `w_ask` walk down the levels of a side until they have seen a size, and average the
prices on the way.  `w_bid_ask` asks both for the size a percentage of the larger side comes to;
`w_bid_ask_fast` computes the same in one function and returns early when a total is zero.

Sizes and prices are `int`, whose arithmetic wraps at 32 bits; the sum of sixteen products fits an
`int64_t`.  A `double` that holds an integer is that integer, and a quotient is exact.
-/

namespace KasparHft

/-- Arithmetic of `int`. -/
def int32 (n : ℤ) : ℤ := Int.bmod n (2 ^ 32)

theorem int32_of_lt {n : ℤ} (hlow : -2 ^ 31 ≤ n) (hhigh : n < 2 ^ 31) : int32 n = n := by
  unfold int32
  rw [Int.bmod_eq_iff (by decide)]
  omega

/-- The conversion of a `double` to `int`, toward zero. -/
def truncate (x : ℚ) : ℤ := if 0 ≤ x then ⌊x⌋ else ⌈x⌉

namespace Point

/-! ### The code -/

/-- The loop of `w_bid` and `w_ask`: the size and the price times size seen when it stops. -/
def weighLoop (pxs szs : List ℤ) (sz : ℤ) : ℕ → ℕ → ℤ → ℤ → Option (ℤ × ℤ)
  | 0, _, _, _ => none
  | fuel + 1, i, seenSz, pxsz =>
      if seenSz < sz then
        if i + 1 = nLevels then none
        else weighLoop pxs szs sz fuel (i + 1) (int32 (seenSz + szs.getD i 0))
          (pxsz + int32 (pxs.getD i 0 * szs.getD i 0))
      else some (seenSz, pxsz)

def weigh (pxs szs : List ℤ) (sz : ℤ) : Option ℚ :=
  match weighLoop pxs szs sz nLevels 0 0 0 with
  | none => none
  | some (seenSz, pxsz) => if seenSz = 0 then none else some ((pxsz : ℚ) / seenSz)

def wBid (p : Point) (sz : ℤ) : Option ℚ := weigh p.bidPx p.bidSz sz

def wAsk (p : Point) (sz : ℤ) : Option ℚ := weigh p.askPx p.askSz sz

/-- The loop of `tot_book_sz` over one side. -/
def totSz (szs : List ℤ) : ℕ → ℤ
  | 0 => 0
  | k + 1 => int32 (totSz szs k + szs.getD k 0)

def totBookSz (p : Point) : ℤ × ℤ := (totSz p.bidSz nLevels, totSz p.askSz nLevels)

/-- `std::max(1., std::round(tot * p / 100))`: the division is one of `int`s. -/
def targetSz (tot pcnt : ℤ) : ℤ := max 1 ((int32 (tot * pcnt)).tdiv 100)

def percentile (p : Point) (pcnt : ℤ) : ℤ × ℤ :=
  (targetSz (totBookSz p).1 pcnt, targetSz (totBookSz p).2 pcnt)

/-- The `sz` of `w_bid_ask`: the larger of the two target sizes. -/
def wantedSz (p : Point) (pcnt : ℚ) : ℤ :=
  max (percentile p (int32 (truncate pcnt))).1 (percentile p (int32 (truncate pcnt))).2

/-- `none` is the abort of a crossed or unpriced average. -/
def wBidAsk (p : Point) (pcnt : ℚ) : Option (Option (ℤ × ℚ × ℚ)) :=
  match p.wBid (p.wantedSz pcnt) with
  | none => some none
  | some wb =>
      match p.wAsk (p.wantedSz pcnt) with
      | none => some none
      | some wa =>
          if wa < wb ∨ wa ≤ 0 ∨ wb ≤ 0 then none else some (some (p.wantedSz pcnt, wb, wa))

def wBidAskFast (p : Point) (pcnt : ℚ) : Option (ℤ × ℚ × ℚ) :=
  let totbid := totSz p.bidSz nLevels
  let totask := totSz p.askSz nLevels
  if totbid = 0 ∨ totask = 0 then none
  else
    let pct := int32 (truncate pcnt)
    let sz := max (targetSz totbid pct) (targetSz totask pct)
    match weighLoop p.bidPx p.bidSz sz nLevels 0 0 0 with
    | none => none
    | some (seenBid, totbidPx) =>
        match weighLoop p.askPx p.askSz sz nLevels 0 0 0 with
        | none => none
        | some (seenAsk, totaskPx) =>
            if seenBid = 0 ∨ seenAsk = 0 then none
            else
              let wbid : ℚ := totbidPx / seenBid
              let wask : ℚ := totaskPx / seenAsk
              if wask < wbid ∨ wask ≤ 0 ∨ wbid ≤ 0 then none else some (sz, wbid, wask)

/-! ### The walk down a side -/

/-- Price times size over the first levels, as the walk adds it up. -/
def totPxSz (pxs szs : List ℤ) : ℕ → ℤ
  | 0 => 0
  | k + 1 => totPxSz pxs szs k + int32 (pxs.getD k 0 * szs.getD k 0)

section Walk

variable {pxs szs : List ℤ} {sz : ℤ}

/-- The walk stops at the first level where enough was seen before. -/
theorem weighLoop_stops {k : ℕ} (left i : ℕ) (hleft : i + left = nLevels) (hik : i ≤ k)
    (hk : k < nLevels) (hbefore : ∀ j, i ≤ j → j < k → totSz szs j < sz)
    (henough : sz ≤ totSz szs k) :
    weighLoop pxs szs sz left i (totSz szs i) (totPxSz pxs szs i) =
      some (totSz szs k, totPxSz pxs szs k) := by
  induction left generalizing i with
  | zero => omega
  | succ left ih =>
      unfold weighLoop
      rcases Nat.lt_or_eq_of_le hik with hlt | rfl
      · rw [if_pos (hbefore i (Nat.le_refl i) hlt), if_neg (by omega)]
        exact ih (i + 1) (by omega) hlt fun j hij => hbefore j (by omega)
      · rw [if_neg (Int.not_lt.mpr henough)]

/-- It runs out when fifteen levels are not enough. -/
theorem weighLoop_runs_out (left i : ℕ) (hleft : i + left = nLevels)
    (hshort : ∀ j, i ≤ j → j < nLevels → totSz szs j < sz) :
    weighLoop pxs szs sz left i (totSz szs i) (totPxSz pxs szs i) = none := by
  induction left generalizing i with
  | zero => rfl
  | succ left ih =>
      unfold weighLoop
      rw [if_pos (hshort i (Nat.le_refl i) (by omega))]
      split
      · rfl
      · exact ih (i + 1) (by omega) fun j hij => hshort j (by omega)

/-- Some level but the last has enough before it. -/
def Reaches (szs : List ℤ) (sz : ℤ) : Prop := ∃ k, k < nLevels ∧ sz ≤ totSz szs k

instance (szs : List ℤ) (sz : ℤ) : Decidable (Reaches szs sz) :=
  inferInstanceAs (Decidable (∃ k, k < nLevels ∧ sz ≤ totSz szs k))

theorem weigh_of_stop {k : ℕ} (hpos : 0 < sz) (hk : k < nLevels)
    (hbefore : ∀ j, j < k → totSz szs j < sz) (henough : sz ≤ totSz szs k) :
    weigh pxs szs sz = some ((totPxSz pxs szs k : ℚ) / totSz szs k) := by
  unfold weigh
  rw [show weighLoop pxs szs sz nLevels 0 0 0 = some (totSz szs k, totPxSz pxs szs k) from
    weighLoop_stops nLevels 0 (Nat.zero_add _) (Nat.zero_le k) hk (fun j _ => hbefore j) henough]
  have hseen : totSz szs k ≠ 0 := by omega
  exact if_neg hseen

theorem weigh_of_not_reaches (hshort : ¬ Reaches szs sz) : weigh pxs szs sz = none := by
  unfold weigh
  rw [show weighLoop pxs szs sz nLevels 0 0 0 = none from
    weighLoop_runs_out nLevels 0 (Nat.zero_add _) fun j _ hj =>
      Int.not_le.mp fun hle => hshort ⟨j, hj, hle⟩]

theorem exists_first_of_reaches (h : Reaches szs sz) :
    ∃ k, k < nLevels ∧ (∀ j, j < k → totSz szs j < sz) ∧ sz ≤ totSz szs k := by
  refine ⟨Nat.find h, (Nat.find_spec h).1, fun j hj => ?_, (Nat.find_spec h).2⟩
  refine Int.not_le.mp fun hle => Nat.find_min h hj ⟨?_, hle⟩
  exact hj.trans (Nat.find_spec h).1

/-- A side has a weighted price exactly when it reaches the size. -/
theorem weigh_isSome_iff (hpos : 0 < sz) : (weigh pxs szs sz).isSome ↔ Reaches szs sz := by
  constructor
  · intro hsome
    by_contra hshort
    rw [weigh_of_not_reaches hshort] at hsome
    cases hsome
  · intro h
    obtain ⟨k, hk, hbefore, henough⟩ := exists_first_of_reaches h
    rw [weigh_of_stop hpos hk hbefore henough]
    rfl

end Walk

/-! ### The whole book -/

/-- The size of the first `k` levels. -/
def total (szs : List ℤ) (k : ℕ) : ℤ := ∑ i ∈ Finset.range k, szs.getD i 0

/-- Price times size over the first `k` levels. -/
def notional (pxs szs : List ℤ) (k : ℕ) : ℤ :=
  ∑ i ∈ Finset.range k, pxs.getD i 0 * szs.getD i 0

/-- No size is negative and nothing the walk adds up or multiplies leaves an `int`. -/
structure Fits (pxs szs : List ℤ) : Prop where
  sizes : ∀ i, i < nLevels → 0 ≤ szs.getD i 0
  total : total szs nLevels < 2 ^ 31
  products : ∀ i, i < nLevels →
    -2 ^ 31 ≤ pxs.getD i 0 * szs.getD i 0 ∧ pxs.getD i 0 * szs.getD i 0 < 2 ^ 31

/-- What a weighted price of size `sz` is: none when all levels together have less, else the
    average over the shortest run of levels from the top that has as much. -/
def IsWeightedPrice (pxs szs : List ℤ) (sz : ℤ) (price : Option ℚ) : Prop :=
  (price = none ↔ total szs nLevels < sz) ∧
    ∀ k, k ≤ nLevels → sz ≤ total szs k → (∀ j, j < k → total szs j < sz) →
      price = some ((notional pxs szs k : ℚ) / total szs k)

section WholeBook

variable {pxs szs : List ℤ} {sz : ℤ}

theorem Fits.total_mono (h : Fits pxs szs) {j k : ℕ} (hjk : j ≤ k) (hk : k ≤ nLevels) :
    Point.total szs j ≤ Point.total szs k := by
  refine Finset.sum_le_sum_of_subset_of_nonneg (Finset.range_subset_range.mpr hjk) ?_
  intro i hi _
  exact h.sizes i ((Finset.mem_range.mp hi).trans_le hk)

theorem Fits.total_nonneg (h : Fits pxs szs) {k : ℕ} (hk : k ≤ nLevels) :
    0 ≤ Point.total szs k :=
  (h.total_mono (Nat.zero_le k) hk).trans' (by simp [Point.total])

theorem Fits.totSz_eq (h : Fits pxs szs) {k : ℕ} (hk : k ≤ nLevels) :
    totSz szs k = Point.total szs k := by
  induction k with
  | zero => rfl
  | succ k ih =>
      have hnext : Point.total szs (k + 1) = Point.total szs k + szs.getD k 0 :=
        Finset.sum_range_succ _ k
      have hlow := h.total_nonneg hk
      have hhigh := (h.total_mono hk (Nat.le_refl _)).trans_lt h.total
      rw [totSz, ih (by omega), ← hnext]
      exact int32_of_lt (by omega) hhigh

theorem Fits.totPxSz_eq (h : Fits pxs szs) {k : ℕ} (hk : k ≤ nLevels) :
    totPxSz pxs szs k = notional pxs szs k := by
  induction k with
  | zero => rfl
  | succ k ih =>
      obtain ⟨hlow, hhigh⟩ := h.products k hk
      rw [totPxSz, ih (by omega), int32_of_lt hlow hhigh]
      exact (Finset.sum_range_succ _ k).symm

theorem Fits.reaches_iff (h : Fits pxs szs) : Reaches szs sz ↔ sz ≤ Point.total szs 15 := by
  constructor
  · rintro ⟨k, hk, hle⟩
    rw [h.totSz_eq (Nat.le_of_lt hk)] at hle
    exact hle.trans (h.total_mono (Nat.le_of_lt_succ hk) (by decide))
  · intro hle
    exact ⟨15, by decide, by rw [h.totSz_eq (by decide)]; exact hle⟩

/-- Where fifteen levels are enough, or sixteen are not, the walk finds the weighted price. -/
theorem Fits.weigh_isWeightedPrice (h : Fits pxs szs) (hpos : 0 < sz)
    (hcond : sz ≤ Point.total szs 15 ∨ Point.total szs nLevels < sz) :
    IsWeightedPrice pxs szs sz (weigh pxs szs sz) := by
  have hmono := h.total_mono (j := 15) (by decide) (Nat.le_refl nLevels)
  rcases hcond with henough | hshort
  · obtain ⟨k, hk, hbefore, hle⟩ := exists_first_of_reaches (h.reaches_iff.mpr henough)
    have hprice : weigh pxs szs sz = some ((totPxSz pxs szs k : ℚ) / totSz szs k) :=
      weigh_of_stop hpos hk hbefore hle
    rw [h.totSz_eq (Nat.le_of_lt hk), h.totPxSz_eq (Nat.le_of_lt hk)] at hprice
    rw [h.totSz_eq (Nat.le_of_lt hk)] at hle
    refine ⟨iff_of_false (by rw [hprice]; exact Option.some_ne_none _) (by omega), ?_⟩
    intro j hj hjle hjbefore
    rcases Nat.lt_trichotomy j k with hlt | rfl | hgt
    · have hless := hbefore j hlt
      rw [h.totSz_eq hj] at hless
      omega
    · exact hprice
    · have hless := hjbefore k hgt
      omega
  · have hnone : ¬ Reaches szs sz := by
      rw [h.reaches_iff]
      omega
    rw [weigh_of_not_reaches hnone]
    refine ⟨iff_of_true rfl hshort, fun k hk hle _ => ?_⟩
    have hless := h.total_mono hk (Nat.le_refl nLevels)
    omega

/-- Where it is the last level that completes the size, the walk finds nothing. -/
theorem Fits.weigh_isWeightedPrice_iff (h : Fits pxs szs) (hpos : 0 < sz) :
    IsWeightedPrice pxs szs sz (weigh pxs szs sz) ↔
      sz ≤ Point.total szs 15 ∨ Point.total szs nLevels < sz := by
  refine ⟨fun hspec => ?_, h.weigh_isWeightedPrice hpos⟩
  by_contra hlast
  rw [not_or] at hlast
  have hnone : weigh pxs szs sz = none :=
    weigh_of_not_reaches fun hreach => hlast.1 (h.reaches_iff.mp hreach)
  exact hlast.2 (hspec.1.mp hnone)

end WholeBook

/-- **Weighted bid and ask**, exactly: they are what they should be unless the last level is the
    one that completes the size. -/
theorem weighted_iff (p : Point) (sz : ℤ) (hpos : 0 < sz) (hbid : Fits p.bidPx p.bidSz)
    (hask : Fits p.askPx p.askSz) :
    (IsWeightedPrice p.bidPx p.bidSz sz (p.wBid sz) ↔
        sz ≤ total p.bidSz 15 ∨ total p.bidSz nLevels < sz) ∧
      (IsWeightedPrice p.askPx p.askSz sz (p.wAsk sz) ↔
        sz ≤ total p.askSz 15 ∨ total p.askSz nLevels < sz) :=
  ⟨hbid.weigh_isWeightedPrice_iff hpos, hask.weigh_isWeightedPrice_iff hpos⟩

/-- A book of sixteen levels of one lot each side. -/
def flatBook : Point where
  bidPx := List.replicate 16 100
  askPx := List.replicate 16 101
  bidSz := List.replicate 16 1
  askSz := List.replicate 16 1
  baddata := false

/-- Fifteen lots of the flat book have a weighted bid and ask. -/
theorem weighted_iff_flatBook :
    (IsWeightedPrice flatBook.bidPx flatBook.bidSz 15 (flatBook.wBid 15) ↔
        15 ≤ total flatBook.bidSz 15 ∨ total flatBook.bidSz nLevels < 15) ∧
      (IsWeightedPrice flatBook.askPx flatBook.askSz 15 (flatBook.wAsk 15) ↔
        15 ≤ total flatBook.askSz 15 ∨ total flatBook.askSz nLevels < 15) :=
  weighted_iff flatBook 15 (by decide) ⟨by decide, by decide, by decide⟩
    ⟨by decide, by decide, by decide⟩

/-- Sixteen lots are in the flat book, and it has no bid for them. -/
theorem last_level_not_weighted :
    flatBook.wBid 16 = none ∧ total flatBook.bidSz nLevels = 16 ∧
      ¬ IsWeightedPrice flatBook.bidPx flatBook.bidSz 16 (flatBook.wBid 16) := by
  have hnone : flatBook.wBid 16 = none := weigh_of_not_reaches (by decide)
  refine ⟨hnone, by decide, fun hspec => ?_⟩
  have hshort : total flatBook.bidSz nLevels < 16 := hspec.1.mp hnone
  exact absurd hshort (by decide)

/-! ### The optimised weighted bid and ask -/

theorem wantedSz_pos (p : Point) (pcnt : ℚ) : 0 < p.wantedSz pcnt :=
  Int.lt_of_lt_of_le Int.zero_lt_one ((le_max_left 1 _).trans (le_max_left _ _))

theorem weigh_bind {pxs szs : List ℤ} {sz : ℤ} {β : Type*} (f : ℚ → Option β) :
    (weigh pxs szs sz).bind f = (weighLoop pxs szs sz nLevels 0 0 0).bind fun seen =>
      if seen.1 = 0 then none else f ((seen.2 : ℚ) / seen.1) := by
  unfold weigh
  rcases weighLoop pxs szs sz nLevels 0 0 0 with _ | ⟨seenSz, pxsz⟩
  · rfl
  · rcases Decidable.em (seenSz = 0) with hzero | hsome
    · simp only [hzero, if_true, Option.bind_none, Option.bind_some]
    · simp only [if_neg hsome, Option.bind_some]

/-- A result that is neither crossed nor unpriced. -/
def priced (sz : ℤ) (wb wa : ℚ) : Option (ℤ × ℚ × ℚ) :=
  if wa < wb ∨ wa ≤ 0 ∨ wb ≤ 0 then none else some (sz, wb, wa)

/-- Past its early return, the optimised version weighs both sides as the plain one does. -/
theorem wBidAskFast_of_totals {p : Point} (hbid : (totBookSz p).1 ≠ 0)
    (hask : (totBookSz p).2 ≠ 0) (pcnt : ℚ) :
    p.wBidAskFast pcnt = (p.wBid (p.wantedSz pcnt)).bind fun wb =>
      (p.wAsk (p.wantedSz pcnt)).bind fun wa => priced (p.wantedSz pcnt) wb wa := by
  simp only [totBookSz] at hbid hask
  have htotals := not_or.mpr ⟨hbid, hask⟩
  unfold wBidAskFast
  rw [if_neg htotals]
  simp only [wBid, wAsk, weigh_bind, wantedSz, percentile, totBookSz]
  generalize max (targetSz (totSz p.bidSz nLevels) _) (targetSz (totSz p.askSz nLevels) _) = sz
  generalize weighLoop p.bidPx p.bidSz sz nLevels 0 0 0 = bidSeen
  generalize weighLoop p.askPx p.askSz sz nLevels 0 0 0 = askSeen
  rcases bidSeen with _ | ⟨seenBid, totbidPx⟩
  · rfl
  · rcases askSeen with _ | ⟨seenAsk, totaskPx⟩
    · simp only [Option.bind_some, Option.bind_none, ite_self]
    · simp only [Option.bind_some]
      rcases Decidable.em (seenBid = 0) with hb | hb
      · rw [if_pos (Or.inl hb), if_pos hb]
      · rw [if_neg hb]
        rcases Decidable.em (seenAsk = 0) with ha | ha
        · rw [if_pos (Or.inr ha), if_pos ha]
        · rw [if_neg (not_or.mpr ⟨hb, ha⟩), if_neg ha]
          rfl

/-- What the plain version returns when it does not abort. -/
theorem wBidAsk_cases {p : Point} {pcnt : ℚ} {r : Option (ℤ × ℚ × ℚ)}
    (hplain : p.wBidAsk pcnt = some r) :
    (r = none ∧ (p.wBid (p.wantedSz pcnt) = none ∨ p.wAsk (p.wantedSz pcnt) = none)) ∨
      ∃ wb wa, p.wBid (p.wantedSz pcnt) = some wb ∧ p.wAsk (p.wantedSz pcnt) = some wa ∧
        priced (p.wantedSz pcnt) wb wa = r ∧ r ≠ none := by
  unfold wBidAsk at hplain
  split at hplain
  next hbid => cases hplain; exact Or.inl ⟨rfl, Or.inl hbid⟩
  next wb hbid =>
    split at hplain
    next hask => cases hplain; exact Or.inl ⟨rfl, Or.inr hask⟩
    next wa hask =>
      split at hplain
      · cases hplain
      next hpriced =>
        cases hplain
        exact Or.inr ⟨wb, wa, hbid, hask, if_neg hpriced, Option.some_ne_none _⟩

/-- The early return of the optimised version is one the plain version makes as well. -/
def EarlyReturnAgrees (p : Point) (pcnt : ℚ) : Prop :=
  ((totBookSz p).1 ≠ 0 ∧ (totBookSz p).2 ≠ 0) ∨
    ¬ (Reaches p.bidSz (p.wantedSz pcnt) ∧ Reaches p.askSz (p.wantedSz pcnt))

/-- **The optimised weighted bid and ask**: where the plain version does not abort, both return the
    same exactly when no total is zero as an `int`, or a side does not reach the size. -/
theorem wBidAskFast_eq_iff (p : Point) (pcnt : ℚ) (r : Option (ℤ × ℚ × ℚ))
    (hplain : p.wBidAsk pcnt = some r) :
    p.wBidAskFast pcnt = r ↔ EarlyReturnAgrees p pcnt := by
  have hpos := p.wantedSz_pos pcnt
  have hbid : (p.wBid (p.wantedSz pcnt)).isSome ↔ Reaches p.bidSz (p.wantedSz pcnt) :=
    weigh_isSome_iff hpos
  have hask : (p.wAsk (p.wantedSz pcnt)).isSome ↔ Reaches p.askSz (p.wantedSz pcnt) :=
    weigh_isSome_iff hpos
  rcases Decidable.em ((totBookSz p).1 ≠ 0 ∧ (totBookSz p).2 ≠ 0) with htotals | hzero
  · refine iff_of_true ?_ (Or.inl htotals)
    rw [wBidAskFast_of_totals htotals.1 htotals.2]
    rcases wBidAsk_cases hplain with ⟨rfl, hb | ha⟩ | ⟨wb, wa, hb, ha, hr, -⟩
    · rw [hb, Option.bind_none]
    · rw [ha]
      exact Option.bind_fun_none _
    · rw [hb, ha]
      exact hr
  · have hearly : p.wBidAskFast pcnt = none := by
      rw [not_and_or, not_not, not_not] at hzero
      simp only [totBookSz] at hzero
      unfold wBidAskFast
      rw [if_pos hzero]
    rw [hearly, EarlyReturnAgrees, or_iff_right hzero, ← hbid, ← hask]
    rcases wBidAsk_cases hplain with ⟨rfl, hb | ha⟩ | ⟨wb, wa, hb, ha, -, hne⟩
    · rw [hb]; simp
    · rw [ha]; simp
    · rw [hb, ha]
      exact iff_of_false (fun heq => hne heq.symm) (fun hnot => hnot ⟨rfl, rfl⟩)

/-- Where no sum of sizes overflows, a side whose total is zero reaches no size. -/
theorem not_reaches_of_totSz_eq_zero {pxs szs : List ℤ} {sz : ℤ} (h : Fits pxs szs)
    (hpos : 0 < sz) (hzero : totSz szs nLevels = 0) : ¬ Reaches szs sz := by
  rw [h.reaches_iff]
  rw [h.totSz_eq (Nat.le_refl _)] at hzero
  have hmono := h.total_mono (j := 15) (by decide) (Nat.le_refl nLevels)
  omega

theorem earlyReturnAgrees_of_fits {p : Point} (pcnt : ℚ) (hbid : Fits p.bidPx p.bidSz)
    (hask : Fits p.askPx p.askSz) : EarlyReturnAgrees p pcnt := by
  have hpos := p.wantedSz_pos pcnt
  unfold EarlyReturnAgrees
  simp only [totBookSz]
  rcases Decidable.em (totSz p.bidSz nLevels = 0) with hb | hb
  · exact Or.inr fun hreach => not_reaches_of_totSz_eq_zero hbid hpos hb hreach.1
  · rcases Decidable.em (totSz p.askSz nLevels = 0) with ha | ha
    · exact Or.inr fun hreach => not_reaches_of_totSz_eq_zero hask hpos ha hreach.2
    · exact Or.inl ⟨hb, ha⟩

/-- The flat book, for half of either side. -/
theorem wBidAskFast_eq_iff_flatBook :
    flatBook.wBidAskFast 50 = some (8, 100, 101) ↔ EarlyReturnAgrees flatBook 50 :=
  wBidAskFast_eq_iff flatBook 50 (some (8, 100, 101)) (by decide +kernel)

/-- Sixteen bids whose sizes add up to `2 ^ 32`. -/
def wrappedBook : Point :=
  { flatBook with bidPx := List.replicate 16 1, bidSz := List.replicate 16 (2 ^ 28) }

/-- The total of the bids wraps to zero: the plain version finds a price, the other returns. -/
theorem wrapped_total_returns_early :
    wrappedBook.wBidAsk 50 = some (some (8, 1, 101)) ∧ wrappedBook.wBidAskFast 50 = none := by
  decide +kernel

end Point

end KasparHft
