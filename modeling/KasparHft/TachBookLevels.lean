import KasparHft.TachBook

/-!
# Level sizes

What `update_sz`, `clear_at_px` and the uncross do to the sizes of the level book, read
through `get_sz`.  Nothing here looks at the best price, which the sizes do not depend on
except for the range of the uncross.
-/

namespace KasparHft.TachBook

open AssocMap

variable {Px : Type} {ops : PriceOps Px}

/-! ### Sizes -/

theorem newSz_sub {level q : ℕ} (h : level < 2 ^ 32) : newSz level (-(q : ℤ)) = level - q := by
  unfold newSz
  split
  · omega
  · have hlow : 0 ≤ (level : ℤ) + -(q : ℤ) := by omega
    rw [Int.emod_eq_of_lt hlow (by omega)]
    omega

theorem newSz_add {level q : ℕ} (h : level + q < 2 ^ 32) : newSz level (q : ℤ) = level + q := by
  unfold newSz
  rw [if_neg (by omega), Int.emod_eq_of_lt (by omega) (by omega)]
  omega

theorem updateBestAfterZero_levels (sd : Side) (b : OrderBookSide) (px : ℤ) :
    (b.updateBestAfterZero sd px).levels = b.levels := by
  cases sd <;> rfl

theorem updateSz_levels {sd : Side} {b : OrderBookSide} {px delta : ℤ} (h : OnLadder px) :
    (b.updateSz sd px delta).levels = Function.update b.levels px (newSz (b.levels px) delta) := by
  unfold OrderBookSide.updateSz
  rw [if_neg (not_not_intro h)]
  dsimp only
  split
  · split
    · rw [updateBestAfterZero_levels]
    · rfl
  · split <;> rfl

theorem updateSz_of_offLadder {sd : Side} {b : OrderBookSide} {px delta : ℤ}
    (h : ¬ OnLadder px) : b.updateSz sd px delta = b := if_pos h

theorem getSz_of_offLadder {b : OrderBookSide} {px : ℤ} (h : ¬ OnLadder px) : b.getSz px = 0 :=
  if_neg h

theorem getSz_updateSz {sd : Side} {b : OrderBookSide} {px delta : ℤ} (h : OnLadder px) (p : ℤ) :
    (b.updateSz sd px delta).getSz p = if p = px then newSz (b.getSz px) delta else b.getSz p := by
  simp only [OrderBookSide.getSz, updateSz_levels h, if_pos h]
  by_cases hp : p = px
  · rw [hp, if_pos h, if_pos rfl, Function.update_self]
  · rw [if_neg hp, Function.update_of_ne hp]

/-- Taking a size off a level never goes below zero. -/
theorem getSz_updateSz_sub {sd : Side} {b : OrderBookSide} {px : ℤ} {q : ℕ}
    (hb : b.getSz px < 2 ^ 32) (p : ℤ) :
    (b.updateSz sd px (-(q : ℤ))).getSz p =
      if p = px then b.getSz px - q else b.getSz p := by
  by_cases h : OnLadder px
  · rw [getSz_updateSz h, newSz_sub hb]
  · rw [updateSz_of_offLadder h]
    split
    next hp => rw [hp, getSz_of_offLadder h, Nat.zero_sub]
    next => rfl

theorem getSz_updateSz_add {sd : Side} {b : OrderBookSide} {px : ℤ} {q : ℕ} (h : OnLadder px)
    (hb : b.getSz px + q < 2 ^ 32) (p : ℤ) :
    (b.updateSz sd px (q : ℤ)).getSz p = if p = px then b.getSz px + q else b.getSz p := by
  rw [getSz_updateSz h, newSz_add hb]

theorem getSz_clearAtPx {sd : Side} {b : OrderBookSide} {px : ℤ} (p : ℤ) :
    (b.clearAtPx sd px).getSz p = if p = px then 0 else b.getSz p := by
  unfold OrderBookSide.clearAtPx
  split
  next hzero =>
    split
    next hp =>
      rw [hp, OrderBookSide.getSz, hzero, ite_self]
    next => rfl
  next =>
    have hlevels : ∀ c : OrderBookSide, c.levels = Function.update b.levels px 0 →
        c.getSz p = if p = px then 0 else b.getSz p := by
      intro c hc
      rw [OrderBookSide.getSz, hc]
      by_cases hp : p = px
      · rw [hp, Function.update_self, ite_self, if_pos rfl]
      · rw [Function.update_of_ne hp, if_neg hp, OrderBookSide.getSz]
    dsimp only
    split
    · exact hlevels _ (updateBestAfterZero_levels _ _ _)
    · exact hlevels _ rfl

/-- The loop of the uncross empties the levels it passes. -/
theorem getSz_clearFrom {sd : Side} (n : ℕ) (b : OrderBookSide) (px p : ℤ) :
    (b.clearFrom sd px n).getSz p = if px ≤ p ∧ p < px + n then 0 else b.getSz p := by
  induction n generalizing b px with
  | zero =>
      rw [if_neg (by omega)]
      rfl
  | succ n ih =>
      have hhead : (if 0 < b.getSz px then b.clearAtPx sd px else b).getSz p =
          if p = px then 0 else b.getSz p := by
        split
        · exact getSz_clearAtPx p
        next hempty =>
          split
          next hp => rw [hp]; omega
          next => rfl
      rw [OrderBookSide.clearFrom, ih, hhead]
      by_cases hp : p = px
      · rw [if_pos hp, ite_self, if_pos ⟨by omega, by omega⟩]
      · rw [if_neg hp]
        have hrange : px + 1 ≤ p ∧ p < px + 1 + n ↔ px ≤ p ∧ p < px + (n + 1 : ℕ) := by
          constructor
          · intro h
            exact ⟨by omega, by omega⟩
          · intro h
            exact ⟨by omega, by omega⟩
        simp only [hrange]

theorem getSz_clearRange {sd : Side} {b : OrderBookSide} {lo hi : ℤ} (h : lo ≤ hi) (p : ℤ) :
    (b.clearFrom sd lo (hi - lo + 1).toNat).getSz p =
      if lo ≤ p ∧ p ≤ hi ∧ 0 < b.getSz p then 0 else b.getSz p := by
  rw [getSz_clearFrom]
  by_cases hzero : b.getSz p = 0
  · rw [hzero, ite_self, ite_self]
  · have hrange : lo ≤ p ∧ p < lo + (hi - lo + 1).toNat ↔ lo ≤ p ∧ p ≤ hi ∧ 0 < b.getSz p := by
      constructor
      · intro hin
        exact ⟨hin.1, by omega, by omega⟩
      · intro hin
        exact ⟨hin.1, by omega⟩
    simp only [hrange]

/-! ### Both sides -/

/-- The size of a level. -/
def Book.sz (b : Book Px) (sd : Side) (px : ℤ) : ℕ := (b.side sd).getSz px

theorem side_updateSz (b : Book Px) (sd sd' : Side) (px delta : ℤ) :
    (b.updateSz sd px delta).side sd' =
      if sd' = sd then (b.side sd).updateSz sd px delta else b.side sd' := by
  cases sd <;> cases sd' <;> rfl

@[simp] theorem sz_orders (b : Book Px) (orders : Map ℕ (Order Px)) (sd : Side) (px : ℤ) :
    ({ b with orders := orders } : Book Px).sz sd px = b.sz sd px := by
  cases sd <;> rfl

theorem sz_updateSz_sub {b : Book Px} {sd : Side} {px : ℤ} {q : ℕ} (hb : b.sz sd px < 2 ^ 32)
    (sd' : Side) (p : ℤ) :
    (b.updateSz sd px (-(q : ℤ))).sz sd' p =
      if sd' = sd ∧ p = px then b.sz sd px - q else b.sz sd' p := by
  unfold Book.sz
  rw [side_updateSz]
  by_cases hsd : sd' = sd
  · simp only [hsd, if_true, true_and]
    exact getSz_updateSz_sub hb p
  · simp only [hsd, if_false, false_and]

theorem sz_updateSz_add {b : Book Px} {sd : Side} {px : ℤ} {q : ℕ} (h : OnLadder px)
    (hb : b.sz sd px + q < 2 ^ 32) (sd' : Side) (p : ℤ) :
    (b.updateSz sd px (q : ℤ)).sz sd' p =
      if sd' = sd ∧ p = px then b.sz sd px + q else b.sz sd' p := by
  unfold Book.sz
  rw [side_updateSz]
  by_cases hsd : sd' = sd
  · simp only [hsd, if_true, true_and]
    exact getSz_updateSz_add h hb p
  · simp only [hsd, if_false, false_and]

/-- The contra levels a New on side `sd` at `px` zeroes: those from the best one to its own
    price that hold a size. -/
def Book.clears (b : Book Px) (sd : Side) (px p : ℤ) : Bool :=
  match sd with
  | .buy => b.ask.best != invalidAsk && b.ask.best ≤ p && p ≤ px && 0 < b.ask.getSz p
  | .sel => b.bid.best != invalidBid && px ≤ p && p ≤ b.bid.best && 0 < b.bid.getSz p

@[simp] theorem orders_uncross (b : Book Px) (sd : Side) (px : ℤ) :
    (b.uncross sd px).orders = b.orders := by
  unfold Book.uncross
  cases sd with
  | buy => dsimp only; split <;> rfl
  | sel => dsimp only; split <;> rfl

theorem sz_uncross (b : Book Px) (sd sd' : Side) (px p : ℤ) :
    (b.uncross sd px).sz sd' p =
      if sd' = sd.other ∧ b.clears sd px p then 0 else b.sz sd' p := by
  cases sd with
  | buy =>
      unfold Book.uncross Book.clears
      dsimp only
      split
      next hcross =>
        cases sd' with
        | buy => simp [Book.sz, Book.side, Side.other]
        | sel =>
            simp only [Book.sz, Book.side, getSz_clearRange hcross.2, Side.other, true_and]
            simp [hcross.1, and_assoc]
      next hcross =>
        have hno : ¬ ((b.ask.best ≠ invalidAsk ∧ b.ask.best ≤ p) ∧ p ≤ px) := by
          intro h
          exact hcross ⟨h.1.1, Int.le_trans h.1.2 h.2⟩
        rw [if_neg]
        simp only [Bool.and_eq_true, bne_iff_ne, decide_eq_true_eq]
        intro h
        exact hno h.2.1
  | sel =>
      unfold Book.uncross Book.clears
      dsimp only
      split
      next hcross =>
        cases sd' with
        | buy =>
            simp only [Book.sz, Book.side, getSz_clearRange hcross.2, Side.other, true_and]
            simp [hcross.1, and_assoc]
        | sel => simp [Book.sz, Book.side, Side.other]
      next hcross =>
        have hno : ¬ ((b.bid.best ≠ invalidBid ∧ px ≤ p) ∧ p ≤ b.bid.best) := by
          intro h
          exact hcross ⟨h.1.1, Int.le_trans h.1.2 h.2⟩
        rw [if_neg]
        simp only [Bool.and_eq_true, bne_iff_ne, decide_eq_true_eq]
        intro h
        exact hno h.2.1

end KasparHft.TachBook
