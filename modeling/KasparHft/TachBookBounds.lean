import KasparHft.TachBookSums

/-!
# Best prices and the bounds of the sizes

Two facts that hold of a level book whatever records it lost.  No level that holds a size is
better than the best of its side, so an uncross reaches every contra level it crosses.  And
a level holds at most the sum over the orders of the map there: an uncross and the clamping
at zero only take sizes away.
-/

namespace KasparHft.TachBook

open AssocMap Machine

variable {Px : Type} {ops : PriceOps Px}

/-! ### Properties of a side -/

/-- A property of a side that `update_sz` and `clear_at_px` keep. -/
structure SideInvariant (P : Side → OrderBookSide → Prop) : Prop where
  empty : ∀ sd, P sd (.empty sd)
  updateSz : ∀ sd b px delta, P sd b → P sd (b.updateSz sd px delta)
  clearAtPx : ∀ sd b px, OnLadder px → P sd b → P sd (b.clearAtPx sd px)

section SideInvariants

variable {P : Side → OrderBookSide → Prop} {b b' : Book Px}

theorem onLadder_of_getSz_pos {o : OrderBookSide} {px : ℤ} (h : 0 < o.getSz px) : OnLadder px := by
  by_contra hoff
  rw [getSz_of_offLadder hoff] at h
  exact Nat.lt_irrefl 0 h

theorem SideInvariant.clearFrom (hP : SideInvariant P) {sd : Side} {o : OrderBookSide} (n : ℕ)
    (px : ℤ) (h : P sd o) : P sd (o.clearFrom sd px n) := by
  induction n generalizing o px with
  | zero => exact h
  | succ n ih =>
      unfold OrderBookSide.clearFrom
      apply ih
      split
      next hpos => exact hP.clearAtPx _ _ _ (onLadder_of_getSz_pos hpos) h
      next => exact h

@[simp] theorem side_orders (b : Book Px) (orders : Map ℕ (Order Px)) (sd : Side) :
    ({ b with orders := orders } : Book Px).side sd = b.side sd := by
  cases sd <;> rfl

theorem SideInvariant.book_empty (hP : SideInvariant P) (sd : Side) :
    P sd (({} : Book Px).side sd) := by
  cases sd with
  | buy => exact hP.empty .buy
  | sel => exact hP.empty .sel

theorem SideInvariant.book_updateSz (hP : SideInvariant P) (h : ∀ sd, P sd (b.side sd)) (sd : Side)
    (px delta : ℤ) (sd' : Side) : P sd' ((b.updateSz sd px delta).side sd') := by
  rw [side_updateSz]
  split
  next heq =>
    rw [heq]
    exact hP.updateSz _ _ _ _ (h sd)
  next => exact h sd'

theorem SideInvariant.uncross (hP : SideInvariant P) (h : ∀ sd, P sd (b.side sd)) (sd : Side)
    (px : ℤ) (sd' : Side) : P sd' ((b.uncross sd px).side sd') := by
  unfold Book.uncross
  cases sd with
  | buy =>
      dsimp only
      split
      · cases sd' with
        | buy => exact h .buy
        | sel => exact hP.clearFrom _ _ (h .sel)
      · exact h sd'
  | sel =>
      dsimp only
      split
      · cases sd' with
        | buy => exact hP.clearFrom _ _ (h .buy)
        | sel => exact h .sel
      · exact h sd'

theorem SideInvariant.dropHeld (hP : SideInvariant P) (h : ∀ sd, P sd (b.side sd)) (oid : ℕ)
    (sd : Side) : P sd ((b.dropHeld ops oid).side sd) := by
  unfold Book.dropHeld
  split
  · exact h sd
  · rw [side_orders]
    exact hP.book_updateSz h _ _ _ sd

theorem SideInvariant.place (hP : SideInvariant P) (h : ∀ sd, P sd (b.side sd)) (m : Mbo Px)
    (sd sd' : Side) : P sd' ((b.place ops m sd).side sd') := by
  unfold Book.place
  rw [side_orders]
  exact hP.book_updateSz h _ _ _ sd'

/-- One book record. -/
theorem SideInvariant.applyMbo (hP : SideInvariant P) {m : Mbo Px} {pl : Option (Payload Px)}
    (h : ∀ sd, P sd (b.side sd)) (hb : b.applyMbo ops m = some (b', pl)) (sd : Side) :
    P sd (b'.side sd) := by
  rcases applyMbo_cases hb with ⟨sdNew, -, -, -, rfl⟩ | ⟨ord, -, -, -, rfl | ⟨delta, rfl⟩⟩ |
    ⟨ord, -, -, rfl⟩ | rfl
  · exact hP.uncross (hP.place (hP.dropHeld h _) m sdNew) _ _ sd
  · unfold Book.moveTo
    rw [side_orders]
    exact hP.book_updateSz (hP.book_updateSz h _ _ _) _ _ _ sd
  · unfold Book.resize
    rw [side_orders]
    exact hP.book_updateSz h _ _ _ sd
  · rw [side_orders]
    exact hP.book_updateSz h _ _ _ sd
  · exact h sd

/-- **Every run.**  What the operations on a level keep holds of both sides in every state
    reached. -/
theorem SideInvariant.run (hP : SideInvariant P) {s : State Px} {es : List (Event Px)}
    {out : List (Out Px)} (hrun : Machine.run (step ops) {} es = some (s, out)) :
    ∀ sd, P sd (s.side sd) := by
  refine run_invariant (I := fun _ _ s => ∀ sd, P sd (s.side sd)) hP.book_empty ?_ hrun
  intro _ _ s e s' o hI hs
  rcases step_book hs with ⟨a, m, pl, -, -, hb⟩ | ⟨hempty, -⟩ | ⟨hsame, -⟩
  · exact hP.applyMbo hI hb
  · rw [hempty]
    exact hP.book_empty
  · rw [hsame]
    exact hI

end SideInvariants

/-! ### The best of a side -/

/-- No level of the array that holds a size is better than `best`. -/
def OrderBookSide.NoneBetter (sd : Side) (b : OrderBookSide) : Prop :=
  ∀ px, OnLadder px → 0 < b.levels px → better sd px b.best = false

theorem le_scanDown {levels : ℤ → ℕ} {p : ℤ} {n : ℕ} (hlow : 0 ≤ p) (hlt : p < n)
    (hpos : 0 < levels p) : p ≤ scanDown levels n := by
  induction n with
  | zero => omega
  | succ n ih =>
      unfold scanDown
      split
      · omega
      next hempty =>
        apply ih
        have hne : p ≠ n := by
          intro heq
          rw [heq] at hpos
          exact hempty hpos
        omega

theorem scanUp_le {levels : ℤ → ℕ} {p : ℤ} {n : ℕ} (hlow : arraySize - n ≤ p)
    (hlt : p < arraySize) (hpos : 0 < levels p) : scanUp levels n ≤ p := by
  induction n with
  | zero => omega
  | succ n ih =>
      unfold scanUp
      split
      · exact hlow
      next hempty =>
        apply ih
        have hne : p ≠ arraySize - (n + 1 : ℕ) := by
          intro heq
          rw [heq] at hpos
          exact hempty hpos
        omega

theorem not_better_buy {px best : ℤ} : better .buy px best = false ↔ px ≤ best := by
  unfold better
  rw [decide_eq_false_iff_not]
  exact Int.not_lt

theorem not_better_sel {px best : ℤ} : better .sel px best = false ↔ best ≤ px := by
  unfold better
  rw [decide_eq_false_iff_not]
  exact Int.not_lt

section Sides

variable {sd : Side} {b : OrderBookSide} {px : ℤ}

theorem noneBetter_empty (sd : Side) : (OrderBookSide.empty sd).NoneBetter sd :=
  fun _ _ hpos => absurd hpos (Nat.lt_irrefl 0)

/-- Not better is transitive with better or equal. -/
theorem not_better_of_better {p q r : ℤ} (hq : better sd p q = false) (hr : better sd r q = true) :
    better sd p r = false := by
  cases sd with
  | buy =>
      have hlt : q < r := by simpa [better] using hr
      exact not_better_buy.mpr (by have := not_better_buy.mp hq; omega)
  | sel =>
      have hlt : r < q := by simpa [better] using hr
      exact not_better_sel.mpr (by have := not_better_sel.mp hq; omega)

/-- After a level was emptied, the levels that hold a size are others. -/
theorem pos_of_emptied {levels : ℤ → ℕ} {px p : ℤ} (h : 0 < Function.update levels px 0 p) :
    p ≠ px ∧ 0 < levels p := by
  by_cases hne : p = px
  · rw [hne, Function.update_self] at h
    exact absurd h (Nat.lt_irrefl 0)
  · rw [Function.update_of_ne hne] at h
    exact ⟨hne, h⟩

/-- The search after the best level went to zero finds the next one. -/
theorem OrderBookSide.NoneBetter.afterZero (h : b.NoneBetter sd) (hbest : px = b.best)
    (hpx : OnLadder px) :
    (OrderBookSide.updateBestAfterZero sd
      { b with levels := Function.update b.levels px 0 } px).NoneBetter sd := by
  intro p hp hpos
  rw [updateBestAfterZero_levels] at hpos
  obtain ⟨hne, hbefore⟩ := pos_of_emptied hpos
  have hnot := h p hp hbefore
  rw [← hbest] at hnot
  cases sd with
  | buy =>
      have hle := not_better_buy.mp hnot
      have := hpx.1
      exact not_better_buy.mpr (le_scanDown hp.1 (by omega) hpos)
  | sel =>
      have hle := not_better_sel.mp hnot
      have := hpx.2
      exact not_better_sel.mpr (scanUp_le (by omega) hp.2 hpos)

theorem OrderBookSide.NoneBetter.updateSz (h : b.NoneBetter sd) (px delta : ℤ) :
    (b.updateSz sd px delta).NoneBetter sd := by
  unfold OrderBookSide.updateSz
  split
  · exact h
  next hpx =>
    dsimp only
    split
    next hzero =>
      rw [hzero]
      split
      next hbest => exact h.afterZero hbest (not_not.mp hpx)
      next =>
        intro p hp hpos
        exact h p hp (pos_of_emptied hpos).2
    next =>
      have hother : ∀ p, OnLadder p →
          0 < Function.update b.levels px (newSz (b.levels px) delta) p → p ≠ px →
          better sd p b.best = false := by
        intro p hp hpos hne
        rw [Function.update_of_ne hne] at hpos
        exact h p hp hpos
      split
      next hbetter =>
        intro p hp hpos
        by_cases hne : p = px
        · rw [hne]
          cases sd with
          | buy => exact not_better_buy.mpr (Int.le_refl _)
          | sel => exact not_better_sel.mpr (Int.le_refl _)
        · exact not_better_of_better (hother p hp hpos hne) hbetter
      next hworse =>
        intro p hp hpos
        by_cases hne : p = px
        · rw [hne]
          exact Bool.eq_false_iff.mpr hworse
        · exact hother p hp hpos hne

theorem OrderBookSide.NoneBetter.clearAtPx (h : b.NoneBetter sd) (hpx : OnLadder px) :
    (b.clearAtPx sd px).NoneBetter sd := by
  unfold OrderBookSide.clearAtPx
  split
  · exact h
  next =>
    dsimp only
    split
    next hbest => exact h.afterZero hbest hpx
    next =>
      intro p hp hpos
      exact h p hp (pos_of_emptied hpos).2

theorem noneBetter_invariant :
    SideInvariant fun sd (b : OrderBookSide) => b.NoneBetter sd where
  empty := noneBetter_empty
  updateSz _ _ px delta h := h.updateSz px delta
  clearAtPx _ _ _ hpx h := h.clearAtPx hpx

end Sides

/-! ### The best of a book -/

/-- On both sides no level is better than the best. -/
def Book.BestFirst (b : Book Px) : Prop := ∀ sd, (b.side sd).NoneBetter sd

section Books

variable {b : Book Px}

theorem Book.BestFirst.congr {b' : Book Px} (h : b.BestFirst) (hbid : b'.bid = b.bid)
    (hask : b'.ask = b.ask) : b'.BestFirst := by
  intro sd
  cases sd with
  | buy =>
      show b'.bid.NoneBetter .buy
      rw [hbid]
      exact h .buy
  | sel =>
      show b'.ask.NoneBetter .sel
      rw [hask]
      exact h .sel

theorem bestFirst_empty : ({} : Book Px).BestFirst := noneBetter_invariant.book_empty

theorem Book.BestFirst.updateSz (h : b.BestFirst) (sd : Side) (px delta : ℤ) :
    (b.updateSz sd px delta).BestFirst :=
  noneBetter_invariant.book_updateSz h sd px delta

theorem Book.BestFirst.uncross (h : b.BestFirst) (sd : Side) (px : ℤ) :
    (b.uncross sd px).BestFirst :=
  noneBetter_invariant.uncross h sd px

/-- **The uncross reaches every level it crosses.** -/
theorem clears_of_through (h : b.BestFirst) {sd : Side} {px p : ℤ}
    (hthrough : through sd px p = true) (hpos : 0 < b.sz sd.other p) : b.clears sd px p = true := by
  have hlad : OnLadder p := onLadder_of_getSz_pos hpos
  have hlevel : 0 < (b.side sd.other).levels p := by
    unfold Book.sz OrderBookSide.getSz at hpos
    rwa [if_pos hlad] at hpos
  have hbest := h sd.other p hlad hlevel
  unfold Book.clears
  cases sd with
  | buy =>
      have hle : b.ask.best ≤ p := not_better_sel.mp hbest
      have hlt := hlad.2
      have hvalid : b.ask.best ≠ invalidAsk := by
        unfold invalidAsk
        omega
      have hcross : p ≤ px := of_decide_eq_true hthrough
      have hsz : 0 < b.ask.getSz p := hpos
      simp [hvalid, hle, hcross, hsz]
  | sel =>
      have hle : p ≤ b.bid.best := not_better_buy.mp hbest
      have hlow := hlad.1
      have hvalid : b.bid.best ≠ invalidBid := by
        unfold invalidBid
        omega
      have hcross : px ≤ p := of_decide_eq_true hthrough
      have hsz : 0 < b.bid.getSz p := hpos
      simp [hvalid, hle, hcross, hsz]

end Books

/-! ### The bounds -/

/-- No level holds more than the sum over those of `orders` that rest there. -/
def Within (ops : PriceOps Px) (b : Book Px) (orders : Map ℕ (Order Px)) : Prop :=
  ∀ sd px, b.sz sd px ≤ levelSum ops orders sd px

/-- What holds of a book between records, whatever it missed. -/
structure Bounded (ops : PriceOps Px) (b : Book Px) : Prop where
  within : Within ops b b.orders
  small : ∀ oid o, b.orders.lookup oid = some o → o.displayQty < 2 ^ 31
  best : b.BestFirst

theorem levelSum_lt {b : Book Px} {bound : ℕ} (h : SumsBelow ops [] b bound) (sd : Side)
    (px : ℤ) : levelSum ops b.orders sd px < bound := by
  rw [← liveSum_nil]
  exact h sd px

theorem levelSum_insert (ops : PriceOps Px) (orders : Map ℕ (Order Px)) (oid : ℕ) (ord : Order Px)
    (sd : Side) (px : ℤ) :
    levelSum ops (orders.insert oid ord) sd px =
      contrib ops sd px ord + levelSum ops (orders.erase oid) sd px :=
  total_insert

theorem levelSum_of_lookup (ops : PriceOps Px) {orders : Map ℕ (Order Px)} {oid : ℕ}
    {ord : Order Px} (h : orders.lookup oid = some ord) (sd : Side) (px : ℤ) :
    levelSum ops orders sd px = contrib ops sd px ord + levelSum ops (orders.erase oid) sd px :=
  (total_erase_of_lookup h).symm

/-- An order's size off its level: clamped at zero. -/
theorem sz_takeOff {b : Book Px} {ord : Order Px} (hq : ord.displayQty < 2 ^ 31)
    (hlt : b.sz ord.side (ops.toPx ord.pxd) < 2 ^ 32) (sd : Side) (px : ℤ) :
    (b.updateSz ord.side (ops.toPx ord.pxd) (-toInt32 ord.displayQty)).sz sd px =
      b.sz sd px - contrib ops sd px ord := by
  rw [toInt32_of_lt hq, sz_updateSz_sub hlt]
  split
  next hat => rw [hat.1, hat.2, contrib_self]
  next hnot => rw [contrib_eq_zero hnot, Nat.sub_zero]

/-- A size onto a level: nothing happens to a price off the ladder. -/
theorem sz_putOn {b : Book Px} {sd : Side} {px : ℤ} {q : ℕ} (hlt : b.sz sd px + q < 2 ^ 32)
    (sd' : Side) (p : ℤ) :
    (b.updateSz sd px (q : ℤ)).sz sd' p =
      b.sz sd' p + if (sd' = sd ∧ p = px) ∧ OnLadder px then q else 0 := by
  by_cases hlad : OnLadder px
  · rw [sz_updateSz_add hlad hlt]
    split
    next hat => rw [if_pos ⟨hat, hlad⟩, hat.1, hat.2]
    next hnot => rw [if_neg fun h => hnot h.1, Nat.add_zero]
  · rw [if_neg fun h => hlad h.2, Nat.add_zero]
    unfold Book.sz
    rw [side_updateSz, updateSz_of_offLadder hlad]
    split
    next heq => rw [heq]
    next => rfl

section Branches

variable {b b' : Book Px} {m : Mbo Px} {oid : ℕ} {ord : Order Px} {pl : Option (Payload Px)}

theorem Within.takeOff (hI : Bounded ops b) (hsum : SumsBelow ops [] b (2 ^ 31))
    (hord : b.orders.lookup oid = some ord) :
    Within ops (b.updateSz ord.side (ops.toPx ord.pxd) (-toInt32 ord.displayQty))
      (b.orders.erase oid) := by
  intro sd px
  have hlevel := hI.within ord.side (ops.toPx ord.pxd)
  have hlt := levelSum_lt hsum ord.side (ops.toPx ord.pxd)
  rw [sz_takeOff (hI.small _ _ hord) (by omega)]
  have hrest := levelSum_of_lookup ops hord sd px
  have := hI.within sd px
  omega

theorem Within.putOn {orders : Map ℕ (Order Px)} (ord : Order Px)
    (hI : Within ops b (orders.erase oid)) (hq : ord.displayQty < 2 ^ 31)
    (hlt : b.sz ord.side (ops.toPx ord.pxd) < 2 ^ 31) :
    Within ops (b.updateSz ord.side (ops.toPx ord.pxd) (toInt32 ord.displayQty))
      (orders.insert oid ord) := by
  intro sd px
  rw [toInt32_of_lt hq, sz_putOn (by omega), levelSum_insert]
  have hle : (if (sd = ord.side ∧ px = ops.toPx ord.pxd) ∧ OnLadder (ops.toPx ord.pxd) then
      ord.displayQty else 0) ≤ contrib ops sd px ord := by
    split
    next hat => rw [hat.1.1, hat.1.2, contrib_self]
    next => exact Nat.zero_le _
  have := hI sd px
  omega

/-- A held order changes its size in place. -/
theorem Within.resize {ord' : Order Px} (hI : Within ops b b.orders)
    (hord : b.orders.lookup oid = some ord)
    (hsz : ∀ sd px, b'.sz sd px ≤ b.sz sd px + contrib ops sd px ord' - contrib ops sd px ord) :
    Within ops b' (b.orders.insert oid ord') := by
  intro sd px
  rw [levelSum_insert]
  have hrest := levelSum_of_lookup ops hord sd px
  have := hsz sd px
  have := hI sd px
  omega

theorem levelSum_erase_lt (hsum : SumsBelow ops [] b (2 ^ 31)) (oid : ℕ) (sd : Side) (px : ℤ) :
    levelSum ops (b.orders.erase oid) sd px < 2 ^ 31 := by
  rw [← liveSum_nil]
  exact Sound.erase_lt hsum oid sd px

theorem Bounded.empty (ops : PriceOps Px) : Bounded ops ({} : Book Px) := by
  refine ⟨?_, ?_, bestFirst_empty⟩
  · intro sd px
    have hzero : ({} : Book Px).sz sd px = 0 := by
      cases sd <;> exact ite_self _
    omega
  · intro oid o ho
    cases ho

theorem dropHeld_bounded (hI : Bounded ops b) (hsum : SumsBelow ops [] b (2 ^ 31)) (oid : ℕ) :
    Bounded ops (b.dropHeld ops oid) ∧ (b.dropHeld ops oid).orders.lookup oid = none ∧
      SumsBelow ops [] (b.dropHeld ops oid) (2 ^ 31) := by
  unfold Book.dropHeld
  rcases hl : b.orders.lookup oid with _ | ex
  · exact ⟨hI, hl, hsum⟩
  · refine ⟨⟨?_, forall_erase hI.small, ?_⟩, AList.lookup_erase _ _, ?_⟩
    · intro sd px
      rw [sz_orders]
      exact Within.takeOff hI hsum hl sd px
    · exact (hI.best.updateSz _ _ _).congr rfl rfl
    · exact fun sd px => Sound.erase_lt hsum oid sd px

theorem place_bounded (hI : Bounded ops b) (hsum : SumsBelow ops [] b (2 ^ 31))
    (hq : m.displayQty < 2 ^ 31) (sd : Side) :
    Bounded ops ((b.dropHeld ops m.orderID).place ops m sd) := by
  obtain ⟨hdrop, hnone, hsum'⟩ := dropHeld_bounded hI hsum m.orderID
  have hbase : Within ops (b.dropHeld ops m.orderID)
      ((b.dropHeld ops m.orderID).orders.erase m.orderID) := by
    intro sd' px
    rw [← liveSum_nil, liveSum_erase_of_lookup_none hnone, liveSum_nil]
    exact hdrop.within sd' px
  refine ⟨?_, forall_insert hdrop.small hq, ?_⟩
  · intro sd' px
    unfold Book.place
    rw [sz_orders]
    refine hbase.putOn ⟨sd, m.pxd, m.displayQty, m.displayQty_lt⟩ hq ?_ sd' px
    have := hdrop.within sd (ops.toPx m.pxd)
    have := levelSum_lt hsum' sd (ops.toPx m.pxd)
    dsimp only
    omega
  · exact (hdrop.best.updateSz _ _ _).congr rfl rfl

theorem add_bounded (hI : Bounded ops b) (hsum : SumsBelow ops [] b (2 ^ 31))
    (h : b.add ops m = some (b', pl)) : Bounded ops b' := by
  obtain ⟨sd, -, hq, rfl⟩ := add_cases h
  have hplace := place_bounded hI hsum hq sd
  refine ⟨?_, ?_, hplace.best.uncross _ _⟩
  · intro sd' px
    rw [sz_uncross, orders_uncross]
    split
    · exact Nat.zero_le _
    · exact hplace.within sd' px
  · rw [orders_uncross]
    exact hplace.small

theorem resize_bounded {delta : ℤ} (hI : Bounded ops b)
    (hord : b.orders.lookup m.orderID = some ord) (hq : m.displayQty < 2 ^ 31)
    (hsz : ∀ sd px, (b.updateSz ord.side (ops.toPx ord.pxd) delta).sz sd px ≤ b.sz sd px +
      contrib ops sd px ⟨ord.side, ord.pxd, m.displayQty, m.displayQty_lt⟩ -
        contrib ops sd px ord) :
    Bounded ops (b.resize ops m ord delta) := by
  refine ⟨?_, forall_insert hI.small hq, (hI.best.updateSz _ _ _).congr rfl rfl⟩
  refine hI.within.resize hord fun sd px => ?_
  unfold Book.resize
  rw [sz_orders]
  exact hsz sd px

/-- A Change in place that takes off, or adds, the difference of the two sizes. -/
theorem inPlace_bounded {delta : ℤ} (hI : Bounded ops b) (hsum : SumsBelow ops [] b (2 ^ 31))
    (hord : b.orders.lookup m.orderID = some ord) (hq : m.displayQty < 2 ^ 31)
    (hdelta : delta = (m.displayQty : ℤ) - ord.displayQty) :
    Bounded ops (b.resize ops m ord delta) := by
  have hlt : b.sz ord.side (ops.toPx ord.pxd) < 2 ^ 31 := by
    have := hI.within ord.side (ops.toPx ord.pxd)
    have := levelSum_lt hsum ord.side (ops.toPx ord.pxd)
    omega
  have hsmall := hI.small _ _ hord
  refine resize_bounded hI hord hq fun sd px => ?_
  by_cases hat : sd = ord.side ∧ px = ops.toPx ord.pxd
  · have hold : contrib ops sd px ord = ord.displayQty := by rw [hat.1, hat.2, contrib_self]
    have hnew : contrib ops sd px ⟨ord.side, ord.pxd, m.displayQty, m.displayQty_lt⟩ =
        m.displayQty := if_pos ⟨hat.1.symm, hat.2.symm⟩
    rw [hold, hnew]
    by_cases hgrow : ord.displayQty ≤ m.displayQty
    · have hnat : delta = (m.displayQty - ord.displayQty : ℕ) := by omega
      rw [hnat, sz_putOn (by omega)]
      split <;> omega
    · have hnat : delta = -((ord.displayQty - m.displayQty : ℕ) : ℤ) := by omega
      rw [hnat, sz_updateSz_sub (by omega), if_pos hat, hat.1, hat.2]
      omega
  · rw [contrib_eq_zero hat, contrib_eq_zero (by exact hat)]
    by_cases hgrow : ord.displayQty ≤ m.displayQty
    · have hnat : delta = (m.displayQty - ord.displayQty : ℕ) := by omega
      rw [hnat, sz_putOn (by omega), if_neg fun h => hat h.1]
      omega
    · have hnat : delta = -((ord.displayQty - m.displayQty : ℕ) : ℤ) := by omega
      rw [hnat, sz_updateSz_sub (by omega), if_neg hat]
      omega

theorem moveTo_bounded (hI : Bounded ops b) (hsum : SumsBelow ops [] b (2 ^ 31))
    (hl : b.orders.lookup m.orderID = some ord) (hq : m.displayQty < 2 ^ 31) :
    Bounded ops (b.moveTo ops m ord ord.displayQty m.displayQty) := by
  have hoff := Within.takeOff hI hsum hl
  refine ⟨?_, forall_insert hI.small hq, ?_⟩
  · intro sd px
    unfold Book.moveTo
    rw [sz_orders]
    refine hoff.putOn ⟨ord.side, m.pxd, m.displayQty, m.displayQty_lt⟩ hq ?_ sd px
    exact Nat.lt_of_le_of_lt (hoff _ _) (levelSum_erase_lt hsum _ _ _)
  · exact ((hI.best.updateSz _ _ _).updateSz _ _ _).congr rfl rfl

theorem canc_bounded (hI : Bounded ops b) (hsum : SumsBelow ops [] b (2 ^ 31))
    (h : b.canc ops m = some (b', pl)) : Bounded ops b' := by
  rcases hl : b.orders.lookup m.orderID with _ | ord
  · unfold Book.canc at h
    rw [hl] at h
    cases h
    exact hI
  · obtain ⟨hq, hcases⟩ := canc_cases hl h
    have hsmall := hI.small _ _ hl
    rcases hcases with ⟨hgrow, -, -, rfl⟩ | ⟨-, -, rfl⟩ | ⟨hshrink, -, rfl⟩
    · refine inPlace_bounded hI hsum hl hq ?_
      rw [toInt32_of_lt (by omega)]
      omega
    · exact moveTo_bounded hI hsum hl hq
    · refine inPlace_bounded hI hsum hl hq ?_
      rw [toInt32_of_lt hq, toInt32_of_lt hsmall]
      omega

theorem cancd_bounded (hI : Bounded ops b) (hsum : SumsBelow ops [] b (2 ^ 31))
    (h : b.cancd ops m = some (b', pl)) : Bounded ops b' := by
  rcases hl : b.orders.lookup m.orderID with _ | ord
  · unfold Book.cancd at h
    rw [hl] at h
    cases h
    exact hI
  · rw [cancd_cases hl h]
    refine ⟨fun sd px => ?_, forall_erase hI.small, (hI.best.updateSz _ _ _).congr rfl rfl⟩
    rw [sz_orders]
    exact Within.takeOff hI hsum hl sd px

/-- **One book record.** -/
theorem applyMbo_bounded (hI : Bounded ops b) (hsum : SumsBelow ops [] b (2 ^ 31))
    (h : b.applyMbo ops m = some (b', pl)) : Bounded ops b' := by
  unfold Book.applyMbo at h
  split at h
  · exact add_bounded hI hsum h
  · split at h
    · exact canc_bounded hI hsum h
    · split at h
      · exact cancd_bounded hI hsum h
      · cases h
        exact hI

end Branches

/-- **The step lemma.** -/
theorem step_bounded {s s' : State Px} {e : Event Px} {o : List (Out Px)}
    (hI : Bounded ops s.toBook) (hsum : SumsBelow ops [] s.toBook (2 ^ 31))
    (h : step ops s e = some (s', o)) : Bounded ops s'.toBook := by
  rcases step_book h with ⟨a, m, pl, -, -, hb⟩ | ⟨hempty, -⟩ | ⟨hsame, -⟩
  · exact applyMbo_bounded hI hsum hb
  · rw [hempty]
    exact Bounded.empty ops
  · rw [hsame]
    exact hI

/-- **Every run.**  While the sums fit their counters, no level holds more than its orders
    and no level is better than the best. -/
theorem run_bounded {s : State Px} {es : List (Event Px)} {out : List (Out Px)}
    (hsums : AllSteps (step ops) (fun s _ => SumsBelow ops [] s.toBook (2 ^ 31)) {} es)
    (hrun : run (step ops) {} es = some (s, out)) : Bounded ops s.toBook :=
  run_induction (I := fun _ _ s => Bounded ops s.toBook) (Bounded.empty ops)
    (fun _ _ _ _ _ _ hI hsum hs => step_bounded hI hsum hs) hsums hrun

end KasparHft.TachBook
