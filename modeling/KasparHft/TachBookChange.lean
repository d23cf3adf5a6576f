import KasparHft.TachBookBest

/-!
# Changes without a price

A Change may come without a price, which means that the order keeps its own.  The first
test of the branch reads it so; the tests inside compare the two prices again and take the
missing one for a new one.  An order that grows is moved to where no price leads, and the
payload built of that price ends the process.
-/

namespace KasparHft.TachBook

open AssocMap Machine

variable {Px : Type} {ops : PriceOps Px}

/-! ### What holds of every book -/

/-- Level sizes are unsigned 32-bit numbers. -/
def OrderBookSide.Word (b : OrderBookSide) : Prop := ∀ px, b.getSz px < 2 ^ 32

theorem newSz_lt (level : ℕ) (delta : ℤ) : newSz level delta < 2 ^ 32 := by
  unfold newSz
  split <;> omega

theorem word_invariant : SideInvariant fun _ (b : OrderBookSide) => b.Word where
  empty _ px := by
    unfold OrderBookSide.getSz
    split <;> exact Nat.two_pow_pos 32
  updateSz sd b px delta h p := by
    by_cases hpx : OnLadder px
    · rw [getSz_updateSz hpx]
      split
      · exact newSz_lt _ _
      · exact h p
    · rw [updateSz_of_offLadder hpx]
      exact h p
  clearAtPx sd b px _ h p := by
    rw [getSz_clearAtPx]
    split
    · exact Nat.two_pow_pos 32
    · exact h p

/-- What an order of the map has come through: a payload admitted its size. -/
def Book.SmallOrders (b : Book Px) : Prop :=
  ∀ oid o, b.orders.lookup oid = some o → o.displayQty < 2 ^ 31

section Records

variable {b b' : Book Px} {m : Mbo Px} {ord : Order Px} {pl : Option (Payload Px)}

theorem Book.SmallOrders.dropHeld (h : b.SmallOrders) (oid : ℕ) :
    (b.dropHeld ops oid).SmallOrders := by
  unfold Book.dropHeld
  split
  · exact h
  · exact forall_erase h

theorem applyMbo_smallOrders (h : b.SmallOrders) (hb : b.applyMbo ops m = some (b', pl)) :
    b'.SmallOrders := by
  rcases applyMbo_cases hb with ⟨sd, -, -, hq, rfl⟩ | ⟨ord, -, -, hq, rfl | ⟨delta, rfl⟩⟩ |
    ⟨ord, -, -, rfl⟩ | rfl
  · unfold Book.SmallOrders
    rw [orders_uncross]
    exact forall_insert (h.dropHeld m.orderID) hq
  · exact forall_insert h hq
  · exact forall_insert h hq
  · exact forall_erase h
  · exact h

end Records

theorem smallOrders_of_run {s : State Px} {es : List (Event Px)} {out : List (Out Px)}
    (hrun : run (step ops) {} es = some (s, out)) : s.toBook.SmallOrders := by
  refine run_invariant (I := fun _ _ s => s.toBook.SmallOrders) (fun _ _ ho => by cases ho) ?_ hrun
  intro _ _ s e s' o hI hs
  rcases step_book hs with ⟨a, m, pl, -, -, hb⟩ | ⟨hempty, -⟩ | ⟨hsame, -⟩
  · exact applyMbo_smallOrders hI hb
  · rw [hempty]
    exact fun _ _ ho => by cases ho
  · rw [hsame]
    exact hI

/-! ### A Change without a price -/

section Absent

variable {b b' : Book Px} {m : Mbo Px} {ord : Order Px} {pl : Option (Payload Px)}

/-- The payload of a Change that leaves the order at its price. -/
def keptPayload (m : Mbo Px) (ord : Order Px) : Payload Px :=
  mboPayload m ord.side .mod .canc 0 (toInt32 m.displayQty) ord.pxd

/-- The order stays where it is and its level takes the difference of the sizes. -/
def StaysPut (ops : PriceOps Px) (b b' : Book Px) (m : Mbo Px) (ord : Order Px) : Prop :=
  b'.orders.lookup m.orderID = some ⟨ord.side, ord.pxd, m.displayQty, m.displayQty_lt⟩ ∧
    (b'.sz ord.side (ops.toPx ord.pxd) : ℤ) =
      b.sz ord.side (ops.toPx ord.pxd) + ((m.displayQty : ℤ) - ord.displayQty)

/-- The payload is admitted, and the order does not grow or has a price that compares equal
    to the missing one, on a level with room in its 32 bits. -/
def Keepable (ops : PriceOps Px) (b : Book Px) (m : Mbo Px) (ord : Order Px) : Prop :=
  (makePayload ops (keptPayload m ord)).isSome = true ∧
    (m.displayQty ≤ ord.displayQty ∨
      ops.eq m.pxd ord.pxd = true ∧ OnLadder (ops.toPx ord.pxd) ∧
        b.sz ord.side (ops.toPx ord.pxd) + (m.displayQty - ord.displayQty) < 2 ^ 32)

instance (ops : PriceOps Px) (b : Book Px) (m : Mbo Px) (ord : Order Px) :
    Decidable (Keepable ops b m ord) := inferInstanceAs (Decidable (_ ∧ _))

/-- **The branches of a Change without a price.**  An order that does not grow is reduced in
    place; one that grows is resized only where the two prices compare equal. -/
theorem canc_absent (hl : b.orders.lookup m.orderID = some ord) (habsent : ops.pos m.pxd = false) :
    b.canc ops m =
      if m.displayQty ≤ ord.displayQty then
        (makePayload ops (keptPayload m ord)).map fun pl =>
          (b.resize ops m ord (-(toInt32 ord.displayQty - toInt32 m.displayQty)), some pl)
      else if ops.eq m.pxd ord.pxd = true ∧ 0 < toInt32 (m.displayQty - ord.displayQty) then
        (makePayload ops (keptPayload m ord)).map fun pl =>
          (b.resize ops m ord (toInt32 (m.displayQty - ord.displayQty)), some pl)
      else none := by
  have hlookup : ∀ delta, (b.resize ops m ord delta).orders.lookup m.orderID =
      some ⟨ord.side, ord.pxd, m.displayQty, m.displayQty_lt⟩ :=
    fun delta => AList.lookup_insert _
  unfold Book.canc
  rw [hl]
  dsimp only
  by_cases hgrow : ord.displayQty < m.displayQty
  · rw [if_pos (.inl hgrow), if_neg (Nat.not_le.mpr hgrow)]
    unfold Book.cancReplace
    by_cases heq : ops.eq m.pxd ord.pxd = true
    · rw [if_pos ⟨hgrow, heq⟩]
      dsimp only
      by_cases hpos : 0 < toInt32 (m.displayQty - ord.displayQty)
      · rw [if_pos hpos, if_pos ⟨heq, hpos⟩]
        simp only [Option.bind_some, hlookup]
        rfl
      · rw [if_neg hpos, if_neg fun h => hpos h.2]
        rfl
    · -- the order is moved to the missing price, which `make_payload` refuses
      have hno : ¬ (ops.eq m.pxd ord.pxd = true ∧ 0 < toInt32 (m.displayQty - ord.displayQty)) :=
        fun h => heq h.1
      rw [if_neg hno, if_neg fun h => heq h.2, if_neg fun h => hgrow.ne h.1.symm,
        if_pos ⟨hgrow, heq⟩]
      split
      · unfold Book.moveTo makePayload mboPayload
        simp only [Option.bind_some, AList.lookup_insert, habsent, Bool.false_and]
        rfl
      · rfl
  · have hreduce : ¬ (ord.displayQty < m.displayQty ∨
        ops.pos m.pxd = true ∧ ¬ ops.eq m.pxd ord.pxd = true) := by
      rw [habsent]
      exact fun h => h.elim hgrow fun h => Bool.noConfusion h.1
    rw [if_neg hreduce, if_pos (Nat.not_lt.mp hgrow)]
    simp only [Option.bind_some, hlookup]
    rfl

theorem resize_staysPut {delta : ℤ}
    (hsz : ((b.updateSz ord.side (ops.toPx ord.pxd) delta).sz ord.side (ops.toPx ord.pxd) : ℤ) =
      b.sz ord.side (ops.toPx ord.pxd) + ((m.displayQty : ℤ) - ord.displayQty)) :
    StaysPut ops b (b.resize ops m ord delta) m ord := by
  unfold Book.resize
  refine ⟨AList.lookup_insert _, ?_⟩
  rw [sz_orders]
  exact hsz

/-- An order that shrinks takes the difference off its level. -/
theorem shrink_staysPut (hagree : Agree ops [] b b.orders) (hsmall : b.SmallOrders)
    (hword : ∀ sd px, b.sz sd px < 2 ^ 32) (hl : b.orders.lookup m.orderID = some ord)
    (hshrink : m.displayQty ≤ ord.displayQty) :
    StaysPut ops b (b.resize ops m ord (-(toInt32 ord.displayQty - toInt32 m.displayQty))) m
      ord := by
  have hold := hsmall _ _ hl
  have hdelta : -(toInt32 ord.displayQty - toInt32 m.displayQty) =
      -((ord.displayQty - m.displayQty : ℕ) : ℤ) := by
    rw [toInt32_of_lt hold, toInt32_of_lt (Nat.lt_of_le_of_lt hshrink hold)]
    omega
  have hheld : ord.displayQty ≤ b.sz ord.side (ops.toPx ord.pxd) := by
    rw [hagree, liveSum_nil, levelSum_of_lookup ops hl, contrib_self]
    exact Nat.le_add_right _ _
  apply resize_staysPut
  rw [hdelta, sz_updateSz_sub (hword _ _), if_pos ⟨rfl, rfl⟩]
  omega

/-- An order that grows in place adds the difference, if there is room for it. -/
theorem grow_staysPut_iff (hgrow : ord.displayQty < m.displayQty)
    (hpos : 0 < toInt32 (m.displayQty - ord.displayQty)) :
    StaysPut ops b (b.resize ops m ord (toInt32 (m.displayQty - ord.displayQty))) m ord ↔
      OnLadder (ops.toPx ord.pxd) ∧
        b.sz ord.side (ops.toPx ord.pxd) + (m.displayQty - ord.displayQty) < 2 ^ 32 := by
  have hq := m.displayQty_lt
  have hdelta : toInt32 (m.displayQty - ord.displayQty) = (m.displayQty - ord.displayQty : ℕ) :=
    toInt32_of_lt (lt_of_toInt32_nonneg (by omega) (Int.le_of_lt hpos))
  constructor
  · rintro ⟨-, hsz⟩
    unfold Book.resize at hsz
    rw [sz_orders, hdelta] at hsz
    by_cases hpx : OnLadder (ops.toPx ord.pxd)
    · refine ⟨hpx, ?_⟩
      have hlt := newSz_lt (b.sz ord.side (ops.toPx ord.pxd)) (m.displayQty - ord.displayQty : ℕ)
      have hat : (b.updateSz ord.side (ops.toPx ord.pxd) (m.displayQty - ord.displayQty : ℕ)).sz
          ord.side (ops.toPx ord.pxd) = newSz (b.sz ord.side (ops.toPx ord.pxd))
            (m.displayQty - ord.displayQty : ℕ) := by
        unfold Book.sz
        rw [side_updateSz, if_pos rfl, getSz_updateSz hpx, if_pos rfl]
      rw [hat] at hsz
      omega
    · have hzero : ∀ b : Book Px, b.sz ord.side (ops.toPx ord.pxd) = 0 :=
        fun b => getSz_of_offLadder hpx
      rw [hzero, hzero] at hsz
      omega
  · rintro ⟨hpx, hroom⟩
    apply resize_staysPut
    rw [hdelta, sz_updateSz_add hpx hroom, if_pos ⟨rfl, rfl⟩]
    omega

end Absent

/-- **Changes without a price.**  In every state reached in which orders and levels agree, a
    Change of a held order whose price is missing is handled, leaves the order at its price
    and changes its level by the difference of the sizes exactly when it is `Keepable`. -/
theorem change_without_price_iff {s : State Px} {es : List (Event Px)} {out : List (Out Px)}
    {m : Mbo Px} {ord : Order Px} (hrun : run (step ops) {} es = some (s, out))
    (hagree : Agree ops [] s.toBook s.orders) (hchange : m.orderUpdateAction = 1)
    (hl : s.orders.lookup m.orderID = some ord) (habsent : ops.pos m.pxd = false) :
    (∃ b pl, s.toBook.applyMbo ops m = some (b, pl) ∧ StaysPut ops s.toBook b m ord) ↔
      Keepable ops s.toBook m ord := by
  have happly : s.toBook.applyMbo ops m = s.toBook.canc ops m := by
    unfold Book.applyMbo
    rw [if_neg (by omega), if_pos hchange]
  have hword : ∀ sd px, s.toBook.sz sd px < 2 ^ 32 := fun sd => word_invariant.run hrun sd
  rw [happly, canc_absent hl habsent]
  unfold Keepable
  rcases hpay : makePayload ops (keptPayload m ord) with _ | pl
  · simp
  · simp only [Option.map_some, Option.isSome_some, true_and]
    split
    next hshrink =>
      have hstays := shrink_staysPut hagree (smallOrders_of_run hrun) hword hl hshrink
      exact iff_of_true ⟨_, _, rfl, hstays⟩ (.inl hshrink)
    next hgrow =>
      have hgrow := Nat.not_le.mp hgrow
      split
      next heq =>
        rw [← grow_staysPut_iff hgrow heq.2]
        constructor
        · rintro ⟨b, pl', hb, hstays⟩
          cases hb
          exact .inr ⟨heq.1, hstays⟩
        · rintro (hle | ⟨-, hstays⟩)
          · exact absurd hle hgrow.not_ge
          · exact ⟨_, _, rfl, hstays⟩
      next hno =>
        refine iff_of_false (fun ⟨_, _, hb, _⟩ => by cases hb) ?_
        rintro (hle | ⟨heq, -, -⟩)
        · exact absurd hle hgrow.not_ge
        · -- an admitted size is small, so the difference is positive as an `int`
          obtain ⟨-, hvalid, -⟩ := makePayload_eq_some.mp hpay
          have hq := lt_of_toInt32_nonneg m.displayQty_lt
            (Payload.sizes_of_isValid (.inr rfl) hvalid).2.2
          refine hno ⟨heq, ?_⟩
          rw [toInt32_of_lt (by omega)]
          omega

/-- A Change of order 1 without a price. -/
def changeOfOne (qty : ℕ) : Mbo ℤ where
  venue := 1
  transactTime := 2
  sendingTime := 2
  orderUpdateAction := 1
  securityID := 1
  orderID := 1
  pxd := 0
  displayQty := qty % 2 ^ 32
  displayQty_lt := mod_lt_2_32 qty
  side := '0'
  endOfEvent := true
  recovery := false

/-- Two bids at a price; one shrinks. -/
theorem change_without_price_iff_shrink :
    ∃ s out ord b pl, run (step tickOps) {} [record 0 1 '0' 20 5, record 0 2 '0' 20 3] =
        some (s, out) ∧
      s.orders.lookup 1 = some ord ∧
      s.toBook.applyMbo tickOps (changeOfOne 2) = some (b, pl) ∧
      StaysPut tickOps s.toBook b (changeOfOne 2) ord := by
  have hfacts : (run (step tickOps) {} [record 0 1 '0' 20 5, record 0 2 '0' 20 3]).bind (fun r =>
      (r.1.orders.lookup 1).map fun ord =>
        decide (Keepable tickOps r.1.toBook (changeOfOne 2) ord)) = some true := by
    decide +kernel
  obtain ⟨⟨s, out⟩, hrun, hlookup⟩ := Option.bind_eq_some_iff.mp hfacts
  obtain ⟨ord, hl, hkeep⟩ := Option.map_eq_some_iff.mp hlookup
  obtain ⟨b, pl, hb, hstays⟩ := (change_without_price_iff hrun
    (sound_of_run hrun (by decide +kernel)).agree rfl hl rfl).mpr (of_decide_eq_true hkeep)
  exact ⟨s, out, ord, b, pl, hrun, hl, hb, hstays⟩

/-- **A Change that grows an order without a price aborts.** -/
theorem growing_change_aborts :
    ¬ ∀ (es : List (Event ℤ)) (s : State ℤ) (out : List (Out ℤ)) (m : Mbo ℤ) (ord : Order ℤ),
      run (step tickOps) {} es = some (s, out) → Agree tickOps [] s.toBook s.orders →
      m.orderUpdateAction = 1 → s.orders.lookup m.orderID = some ord →
      tickOps.pos m.pxd = false →
      ∃ b pl, s.toBook.applyMbo tickOps m = some (b, pl) ∧ StaysPut tickOps s.toBook b m ord := by
  intro hall
  have hfacts : (run (step tickOps) {} [record 0 1 '0' 20 5]).bind (fun r =>
      (r.1.orders.lookup 1).map fun _ =>
        (r.1.toBook.applyMbo tickOps (changeOfOne 9)).isNone) = some true := by
    decide +kernel
  obtain ⟨⟨s, out⟩, hrun, hlookup⟩ := Option.bind_eq_some_iff.mp hfacts
  obtain ⟨ord, hl, hnone⟩ := Option.map_eq_some_iff.mp hlookup
  obtain ⟨b, pl, hb, -⟩ := hall _ s out (changeOfOne 9) ord hrun
    (sound_of_run hrun (by decide +kernel)).agree rfl hl rfl
  rw [hb] at hnone
  cases hnone

end KasparHft.TachBook
