import KasparHft.Ladder
import KasparHft.TachBookBounds

/-!
# The best of a side

A side of the level book keeps its best level as it goes: a level that fills may become the
best, and when the best one empties the search for the next runs away from it only.  It is
right because no level beyond the best holds a size and the best itself does, whatever the
order of the operations, and also where a decrement is cut off at zero.
-/

namespace KasparHft.TachBook

open AssocMap Machine

variable {Px : Type} {ops : PriceOps Px}

/-! ### The best of a side is a level of it -/

/-- The best is that of an empty side or a level that holds a size. -/
def OrderBookSide.Attained (sd : Side) (b : OrderBookSide) : Prop :=
  b.best = invalid sd ∨ 0 < b.getSz b.best

theorem scanDown_attained (levels : ℤ → ℕ) (n : ℕ) :
    scanDown levels n = invalidBid ∨
      (0 ≤ scanDown levels n ∧ scanDown levels n < n) ∧ 0 < levels (scanDown levels n) := by
  induction n with
  | zero => exact .inl rfl
  | succ n ih =>
      unfold scanDown
      split
      next hpos => exact .inr ⟨⟨by omega, by omega⟩, hpos⟩
      next =>
        refine ih.imp_right ?_
        rintro ⟨⟨hlow, hlt⟩, hpos⟩
        exact ⟨⟨hlow, by omega⟩, hpos⟩

theorem scanUp_attained (levels : ℤ → ℕ) (n : ℕ) :
    scanUp levels n = invalidAsk ∨
      (arraySize - n ≤ scanUp levels n ∧ scanUp levels n < arraySize) ∧
        0 < levels (scanUp levels n) := by
  induction n with
  | zero => exact .inl rfl
  | succ n ih =>
      unfold scanUp
      split
      next hpos => exact .inr ⟨⟨by omega, by omega⟩, hpos⟩
      next =>
        refine ih.imp_right ?_
        rintro ⟨⟨hlow, hlt⟩, hpos⟩
        exact ⟨⟨by omega, hlt⟩, hpos⟩

section Sides

variable {sd : Side} {b : OrderBookSide} {px : ℤ}

/-- The search for the next level after `px` went to zero. -/
theorem attained_afterZero (b : OrderBookSide) (hpx : OnLadder px) :
    (b.updateBestAfterZero sd px).Attained sd := by
  obtain ⟨hlow, hhigh⟩ := hpx
  unfold OrderBookSide.Attained OrderBookSide.getSz
  cases sd with
  | buy =>
      refine (scanDown_attained b.levels px.toNat).imp id ?_
      rintro ⟨⟨hge, hlt⟩, hpos⟩
      have hlad : OnLadder (scanDown b.levels px.toNat) := ⟨hge, by omega⟩
      exact (if_pos hlad).symm ▸ hpos
  | sel =>
      refine (scanUp_attained b.levels (arraySize - 1 - px).toNat).imp id ?_
      rintro ⟨⟨hge, hlt⟩, hpos⟩
      have hlad : OnLadder (scanUp b.levels (arraySize - 1 - px).toNat) := ⟨by omega, hlt⟩
      exact (if_pos hlad).symm ▸ hpos

/-- A change of another level leaves the best a level that holds a size. -/
theorem OrderBookSide.Attained.update_of_ne (h : b.Attained sd) (hne : px ≠ b.best) (sz : ℕ) :
    OrderBookSide.Attained sd { b with levels := Function.update b.levels px sz } := by
  unfold OrderBookSide.Attained OrderBookSide.getSz at h ⊢
  dsimp only
  rwa [Function.update_of_ne hne.symm]

theorem OrderBookSide.Attained.updateSz (h : b.Attained sd) (px delta : ℤ) :
    (b.updateSz sd px delta).Attained sd := by
  unfold OrderBookSide.updateSz
  split
  · exact h
  next hpx =>
    have hlad := not_not.mp hpx
    have hat : ∀ sz, 0 < sz → OrderBookSide.Attained sd
        { b with levels := Function.update b.levels px sz, best := px } := by
      intro sz hpos
      right
      unfold OrderBookSide.getSz
      dsimp only
      rwa [if_pos hlad, Function.update_self]
    dsimp only
    split
    · split
      · exact attained_afterZero _ hlad
      next hne => exact h.update_of_ne hne _
    next hpos =>
      split
      · exact hat _ (Nat.pos_of_ne_zero hpos)
      · by_cases hne : px = b.best
        · have hsame := hat _ (Nat.pos_of_ne_zero hpos)
          rwa [hne] at hsame ⊢
        · exact h.update_of_ne hne _

theorem OrderBookSide.Attained.clearAtPx (h : b.Attained sd) (hpx : OnLadder px) :
    (b.clearAtPx sd px).Attained sd := by
  unfold OrderBookSide.clearAtPx
  split
  · exact h
  next =>
    dsimp only
    split
    · exact attained_afterZero _ hpx
    next hne => exact h.update_of_ne hne _

theorem attained_invariant : SideInvariant fun sd (b : OrderBookSide) => b.Attained sd where
  empty _ := .inl rfl
  updateSz _ _ px delta h := h.updateSz px delta
  clearAtPx _ _ _ hpx h := h.clearAtPx hpx

/-- A best that is not that of an empty side is an index of the array. -/
theorem OrderBookSide.Attained.onLadder (h : b.Attained sd) (hvalid : b.best ≠ invalid sd) :
    OnLadder b.best := onLadder_of_getSz_pos (h.resolve_left hvalid)

end Sides

/-! ### Every sequence of operations -/

/-- A call of a side's operations; `clear_at_px` is called on an index of the array. -/
inductive SideOp where
  | updateSz (px delta : ℤ)
  | clearAtPx (px : ℤ) (hpx : OnLadder px)
  | clear

def OrderBookSide.apply (sd : Side) (b : OrderBookSide) : SideOp → OrderBookSide
  | .updateSz px delta => b.updateSz sd px delta
  | .clearAtPx px _ => b.clearAtPx sd px
  | .clear => .empty sd

/-- A side as it is built, after the calls. -/
def OrderBookSide.applyAll (sd : Side) (calls : List SideOp) : OrderBookSide :=
  calls.foldl (OrderBookSide.apply sd) (.empty sd)

theorem SideInvariant.applyAll {P : Side → OrderBookSide → Prop} (hP : SideInvariant P) (sd : Side)
    (calls : List SideOp) : P sd (.applyAll sd calls) := by
  induction calls using List.reverseRecOn with
  | nil => exact hP.empty sd
  | append_singleton calls call ih =>
      unfold OrderBookSide.applyAll at ih ⊢
      rw [List.foldl_concat]
      cases call with
      | updateSz px delta => exact hP.updateSz _ _ _ _ ih
      | clearAtPx px hpx => exact hP.clearAtPx _ _ _ hpx ih
      | clear => exact hP.empty sd

theorem better_iff {sd : Side} {px best : ℤ} :
    better sd px best = false ↔ sd.sign * px ≤ sd.sign * best := by
  cases sd with
  | buy =>
      rw [not_better_buy, Side.sign_buy]
      omega
  | sel =>
      rw [not_better_sel, Side.sign_sel]
      omega

/-- Every level of the array is better than the best of an empty side. -/
theorem better_invalid {sd : Side} {px : ℤ} (hpx : OnLadder px) :
    better sd px (invalid sd) = true := by
  obtain ⟨hlow, hhigh⟩ := hpx
  cases sd with
  | buy => exact decide_eq_true (show (-1 : ℤ) < px by omega)
  | sel => exact decide_eq_true hhigh

section Best

variable {sd : Side} {b : OrderBookSide}

theorem OrderBookSide.NoneBetter.le (h : b.NoneBetter sd) {px : ℤ} (hpos : 0 < b.getSz px) :
    sd.sign * px ≤ sd.sign * b.best := by
  have hpx := onLadder_of_getSz_pos hpos
  unfold OrderBookSide.getSz at hpos
  rw [if_pos hpx] at hpos
  exact better_iff.mp (h px hpx hpos)

theorem OrderBookSide.NoneBetter.invalid_iff (h : b.NoneBetter sd) (hatt : b.Attained sd) :
    b.best = invalid sd ↔ ∀ px, b.getSz px = 0 := by
  constructor
  · intro hinvalid px
    by_contra hne
    have hpos := Nat.pos_of_ne_zero hne
    have hworse := better_iff.mpr (h.le hpos)
    rw [hinvalid, better_invalid (onLadder_of_getSz_pos hpos)] at hworse
    cases hworse
  · intro hempty
    refine hatt.resolve_right ?_
    rw [hempty]
    exact Nat.lt_irrefl 0

end Best

/-- **The best price.**  After any calls the best of a side is its best level that holds a
    size, highest for bids and lowest for asks; it is the sentinel exactly when all levels
    are zero. -/
theorem best_is_best (sd : Side) (calls : List SideOp) :
    Ladder.Best sd.sign (fun px => 0 < (OrderBookSide.applyAll sd calls).getSz px) (· = invalid sd)
        (OrderBookSide.applyAll sd calls).best ∧
      ((OrderBookSide.applyAll sd calls).best = invalid sd ↔
        ∀ px, (OrderBookSide.applyAll sd calls).getSz px = 0) := by
  have hnone := noneBetter_invariant.applyAll sd calls
  have hatt := attained_invariant.applyAll sd calls
  refine ⟨?_, hnone.invalid_iff hatt⟩
  rcases hatt with hinvalid | hpos
  · right
    have hempty := (hnone.invalid_iff (.inl hinvalid)).mp hinvalid
    exact ⟨fun px hpx => (hempty px ▸ hpx).false, hinvalid⟩
  · exact .inl ⟨hpos, fun px hpx => hnone.le hpx⟩

end KasparHft.TachBook
