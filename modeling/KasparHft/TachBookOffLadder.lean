import KasparHft.TachBookBest

/-!
# News off the ladder

`update_sz` rejects a price that is no index of the level array, but the uncross that
follows it still takes this price for its range.  A bid past the top of the ladder, or an
offer below it, crosses every contra level: the book drops the New and with it the whole
other side.
-/

namespace KasparHft.TachBook

open AssocMap Machine

variable {Px : Type} {ops : PriceOps Px}

/-! ### A New off the ladder -/

/-- The price is past the end of the ladder from where side `sd` crosses every level of the
    other one. -/
def pastContra : Side → ℤ → Bool
  | .buy, px => arraySize ≤ px
  | .sel, px => px < 0

/-- The New is priced past that end and the other side is not empty. -/
def RunsThrough (ops : PriceOps Px) (b : Book Px) (m : Mbo Px) : Prop :=
  match getSide m.side with
  | none => False
  | some sd =>
      pastContra sd (ops.toPx m.pxd) = true ∧ (b.side sd.other).best ≠ invalid sd.other

instance (ops : PriceOps Px) (b : Book Px) (m : Mbo Px) : Decidable (RunsThrough ops b m) :=
  match h : getSide m.side with
  | none => .isFalse fun hruns => by simp [RunsThrough, h] at hruns
  | some sd =>
      decidable_of_iff (pastContra sd (ops.toPx m.pxd) = true ∧
        (b.side sd.other).best ≠ invalid sd.other) (by simp [RunsThrough, h])

section Books

variable {b b' : Book Px} {m : Mbo Px} {sd : Side} {px : ℤ}

theorem through_of_pastContra (hpast : pastContra sd px = true) {p : ℤ} (hp : OnLadder p) :
    through sd px p = true := by
  obtain ⟨hlow, hhigh⟩ := hp
  cases sd with
  | buy =>
      have hle : arraySize ≤ px := of_decide_eq_true hpast
      exact decide_eq_true (by omega)
  | sel =>
      have hlt : px < 0 := of_decide_eq_true hpast
      exact decide_eq_true (by omega)

/-- Past the end the uncross takes the whole other side. -/
theorem sz_uncross_pastContra (hbest : b.BestFirst) (hpast : pastContra sd px = true) (p : ℤ) :
    (b.uncross sd px).sz sd.other p = 0 := by
  rw [sz_uncross]
  split
  next => rfl
  next hkept =>
    by_contra hne
    have hpos : 0 < b.sz sd.other p := Nat.pos_of_ne_zero hne
    have hthrough := through_of_pastContra hpast (onLadder_of_getSz_pos hpos)
    exact hkept ⟨rfl, clears_of_through hbest hthrough hpos⟩

/-- A price off the ladder at its own end, and any price against an empty side, crosses
    nothing. -/
theorem uncross_of_offLadder (hatt : (b.side sd.other).Attained sd.other)
    (hoff : ¬ OnLadder px)
    (hno : pastContra sd px = true → (b.side sd.other).best = invalid sd.other) :
    b.uncross sd px = b := by
  by_cases hempty : (b.side sd.other).best = invalid sd.other
  · unfold Book.uncross
    cases sd with
    | buy => exact if_neg fun h => h.1 hempty
    | sel => exact if_neg fun h => h.1 hempty
  · obtain ⟨hlow, hhigh⟩ := hatt.onLadder hempty
    have hpast : ¬ pastContra sd px = true := fun h => hempty (hno h)
    unfold Book.uncross
    cases sd with
    | buy =>
        have hlt : ¬ arraySize ≤ px := fun h => hpast (decide_eq_true h)
        have hneg : px < 0 := by
          by_contra hge
          exact hoff ⟨by omega, by omega⟩
        change 0 ≤ b.ask.best at hlow
        exact if_neg fun h => by omega
    | sel =>
        have hge : ¬ px < 0 := fun h => hpast (decide_eq_true h)
        have htop : arraySize ≤ px := by
          by_contra hlt
          exact hoff ⟨by omega, by omega⟩
        change b.bid.best < arraySize at hhigh
        exact if_neg fun h => by omega

theorem uncross_orders (b : Book Px) (orders : Map ℕ (Order Px)) (sd : Side) (px : ℤ) :
    ({ b with orders := orders } : Book Px).uncross sd px =
      { b.uncross sd px with orders := orders } := by
  unfold Book.uncross
  cases sd with
  | buy => dsimp only; split <;> rfl
  | sel => dsimp only; split <;> rfl

/-- **What a New off the ladder does**: the order goes into the map, no size onto a level,
    and the uncross runs. -/
theorem add_offLadder (hfresh : b.orders.lookup m.orderID = none)
    (hoff : ¬ OnLadder (ops.toPx m.pxd)) {pl : Option (Payload Px)}
    (h : b.add ops m = some (b', pl)) :
    ∃ sd, getSide m.side = some sd ∧
      b' = { b.uncross sd (ops.toPx m.pxd) with
        orders := b.orders.insert m.orderID ⟨sd, m.pxd, m.displayQty, m.displayQty_lt⟩ } := by
  obtain ⟨sd, hside, -, rfl⟩ := add_cases h
  have hdrop : b.dropHeld ops m.orderID = b := by
    unfold Book.dropHeld
    rw [hfresh]
  have hsame : ∀ delta, b.updateSz sd (ops.toPx m.pxd) delta = b := by
    intro delta
    unfold Book.updateSz
    rw [updateSz_of_offLadder hoff]
    cases sd <;> rfl
  refine ⟨sd, hside, ?_⟩
  rw [hdrop, Book.place, hsame, uncross_orders]

end Books

/-! ### Every New of every run -/

/-- **News off the ladder.**  In every state reached, a New of a fresh order at a price off
    the ladder leaves the sizes and the best of both sides as they were exactly when the book
    does not read it, or its price is at the end of the ladder where its own side crosses
    nothing, or the other side is empty. -/
theorem off_ladder_iff {s s' : State Px} {es : List (Event Px)} {out o : List (Out Px)} {a : Asset}
    {m : Mbo Px} (hrun : run (step ops) {} es = some (s, out)) (hnew : m.orderUpdateAction = 0)
    (hfresh : s.orders.lookup m.orderID = none) (hoff : ¬ OnLadder (ops.toPx m.pxd))
    (hstep : step ops s (.data a (.mbo m)) = some (s', o)) :
    (∀ sd, (∀ px, (s'.side sd).getSz px = (s.side sd).getSz px) ∧
        (s'.side sd).best = (s.side sd).best) ↔
      ¬ (s.Reads a m ∧ RunsThrough ops s.toBook m) := by
  rcases step_book hstep with ⟨a', m', pl, heq, hread, hb⟩ | ⟨-, a', heq⟩ | ⟨hsame, hother⟩
  · cases heq
    have hadd : s.toBook.add ops m = some (s'.toBook, pl) := by
      unfold Book.applyMbo at hb
      rwa [if_pos hnew] at hb
    obtain ⟨sd, hside, hbook⟩ := add_offLadder hfresh hoff hadd
    have hatt := attained_invariant.run hrun sd.other
    have hsides : ∀ sd', s'.side sd' = (s.toBook.uncross sd (ops.toPx m.pxd)).side sd' := by
      intro sd'
      rw [hbook, side_orders]
    have hruns : RunsThrough ops s.toBook m ↔ pastContra sd (ops.toPx m.pxd) = true ∧
        (s.side sd.other).best ≠ invalid sd.other := by
      unfold RunsThrough
      rw [hside]
    rw [hruns]
    constructor
    · rintro hkept ⟨-, hpast, hvalid⟩
      -- the best level of the other side held a size, and now holds none
      have hpos := hatt.resolve_left hvalid
      have hzero := sz_uncross_pastContra (noneBetter_invariant.run hrun) hpast
        (s.side sd.other).best
      unfold Book.sz at hzero
      rw [← hsides, (hkept sd.other).1] at hzero
      omega
    · intro hno sd'
      have hcalm : s.toBook.uncross sd (ops.toPx m.pxd) = s.toBook :=
        uncross_of_offLadder hatt hoff fun hpast => by
          by_contra hvalid
          exact hno ⟨hread, hpast, hvalid⟩
      rw [hsides, hcalm]
      exact ⟨fun _ => rfl, rfl⟩
  · cases heq
  · refine iff_of_true ?_ fun h => hother a m rfl h.1
    intro sd
    rw [hsame]
    exact ⟨fun _ => rfl, rfl⟩

/-- The New of a fresh order 3, priced one tick past the top of the ladder. -/
def newPastTop (side : Char) (qty : ℕ) : Mbo ℤ where
  venue := 1
  transactTime := 1
  sendingTime := 1
  orderUpdateAction := 0
  securityID := 1
  orderID := 3
  pxd := arraySize
  displayQty := qty % 2 ^ 32
  displayQty_lt := mod_lt_2_32 qty
  side := side
  endOfEvent := true
  recovery := false

/-- An offer past the top, with both sides resting. -/
theorem off_ladder_iff_offer :
    ∃ s s' out o, run (step tickOps) {} [record 0 1 '0' 20 5, record 0 2 '1' 22 7] =
        some (s, out) ∧
      step tickOps s (.data ⟨1, true⟩ (.mbo (newPastTop '1' 5))) = some (s', o) ∧
      ∀ sd, (∀ px, (s'.side sd).getSz px = (s.side sd).getSz px) ∧
        (s'.side sd).best = (s.side sd).best := by
  have hfacts : (run (step tickOps) {} [record 0 1 '0' 20 5, record 0 2 '1' 22 7]).map (fun r =>
      decide (r.1.orders.lookup 3 = none ∧
        (step tickOps r.1 (.data ⟨1, true⟩ (.mbo (newPastTop '1' 5)))).isSome = true ∧
        ¬ (r.1.Reads ⟨1, true⟩ (newPastTop '1' 5) ∧
          RunsThrough tickOps r.1.toBook (newPastTop '1' 5)))) = some true := by decide +kernel
  obtain ⟨⟨s, out⟩, hrun, htrue⟩ := Option.map_eq_some_iff.mp hfacts
  obtain ⟨hfresh, hsome, hno⟩ := of_decide_eq_true htrue
  obtain ⟨⟨s', o⟩, hstep⟩ := Option.isSome_iff_exists.mp hsome
  exact ⟨s, s', out, o, hrun, hstep,
    (off_ladder_iff hrun rfl hfresh (by decide) hstep).mpr hno⟩

/-- **A rejected bid takes the asks.**  An ask rests on the top level of the ladder; the bid
    one tick above is rejected, and the level is empty after it. -/
theorem off_ladder_bid_clears_asks :
    ¬ ∀ (es : List (Event ℤ)) (s s' : State ℤ) (out o : List (Out ℤ)) (a : Asset) (m : Mbo ℤ),
      run (step tickOps) {} es = some (s, out) → m.orderUpdateAction = 0 →
      s.orders.lookup m.orderID = none → ¬ OnLadder (tickOps.toPx m.pxd) →
      step tickOps s (.data a (.mbo m)) = some (s', o) →
      ∀ sd, (∀ px, (s'.side sd).getSz px = (s.side sd).getSz px) ∧
        (s'.side sd).best = (s.side sd).best := by
  intro hall
  have hfacts : (run (step tickOps) {} [record 0 1 '0' 20 5, record 0 2 '1' 262143 7]).map
      (fun r => decide (r.1.orders.lookup 3 = none ∧
        (step tickOps r.1 (.data ⟨1, true⟩ (.mbo (newPastTop '0' 5)))).map (fun r' =>
          (r.1.ask.best, r'.1.ask.best)) = some (262143, 262144))) = some true := by
    decide +kernel
  obtain ⟨⟨s, out⟩, hrun, htrue⟩ := Option.map_eq_some_iff.mp hfacts
  obtain ⟨hfresh, hbests⟩ := of_decide_eq_true htrue
  obtain ⟨⟨s', o⟩, hstep, heq⟩ := Option.map_eq_some_iff.mp hbests
  have hbest := (hall _ s s' out o ⟨1, true⟩ (newPastTop '0' 5) hrun rfl hfresh (by decide)
    hstep .sel).2
  change s'.ask.best = s.ask.best at hbest
  rw [(Prod.mk.inj heq).1, (Prod.mk.inj heq).2] at hbest
  cases hbest

end KasparHft.TachBook
