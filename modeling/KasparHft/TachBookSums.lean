import KasparHft.Machine
import KasparHft.TachBookLevels

/-!
# Level sums

A level size is kept by deltas, one for each record.  Here it is compared with what it
should be: the sum of `displayQty` over the orders of the map at that side and price.
Every branch of a book record takes an order's size off its level, or puts one on, or
does both; `takeOff`, `putOn` and `resize` say what each does to the comparison.

An uncross zeroes levels and leaves their orders in the map, so the comparison leaves out
the orders an uncross has removed, the list `gone`.  It stays empty in a run in which no
New crosses.
-/

namespace KasparHft.TachBook

open AssocMap Machine

variable {Px : Type} {ops : PriceOps Px}

/-! ### Sums over the orders -/

/-- What an order adds to the level of side `sd` at tick `px`. -/
def contrib (ops : PriceOps Px) (sd : Side) (px : ℤ) (o : Order Px) : ℕ :=
  if o.side = sd ∧ ops.toPx o.pxd = px then o.displayQty else 0

/-- The sum of `displayQty` over the orders of the map at side `sd` and tick `px`. -/
def levelSum (ops : PriceOps Px) (orders : Map ℕ (Order Px)) (sd : Side) (px : ℤ) : ℕ :=
  total (fun _ o => contrib ops sd px o) orders

/-- The same sum without the orders listed in `gone`. -/
def liveSum (ops : PriceOps Px) (gone : List ℕ) (orders : Map ℕ (Order Px)) (sd : Side)
    (px : ℤ) : ℕ :=
  total (fun oid o => if oid ∈ gone then 0 else contrib ops sd px o) orders

theorem liveSum_nil (orders : Map ℕ (Order Px)) (sd : Side) (px : ℤ) :
    liveSum ops [] orders sd px = levelSum ops orders sd px := by
  apply total_congr
  intro oid o _
  exact if_neg List.not_mem_nil

section Sums

variable {gone : List ℕ} {orders : Map ℕ (Order Px)} {oid : ℕ} {ord : Order Px}

theorem liveSum_insert (sd : Side) (px : ℤ) :
    liveSum ops gone (orders.insert oid ord) sd px =
      (if oid ∈ gone then 0 else contrib ops sd px ord) +
        liveSum ops gone (orders.erase oid) sd px :=
  total_insert

theorem liveSum_of_lookup (ops : PriceOps Px) (gone : List ℕ) (h : orders.lookup oid = some ord)
    (sd : Side) (px : ℤ) :
    liveSum ops gone orders sd px =
      (if oid ∈ gone then 0 else contrib ops sd px ord) +
        liveSum ops gone (orders.erase oid) sd px :=
  (total_erase_of_lookup h).symm

theorem liveSum_erase_of_lookup_none (h : orders.lookup oid = none) (sd : Side) (px : ℤ) :
    liveSum ops gone (orders.erase oid) sd px = liveSum ops gone orders sd px :=
  total_erase_of_notMem (AList.lookup_eq_none.mp h)

/-- An order that is not in the map does not matter to the sum. -/
theorem liveSum_filter_erase (sd : Side) (px : ℤ) :
    liveSum ops (gone.filter (· ≠ oid)) (orders.erase oid) sd px =
      liveSum ops gone (orders.erase oid) sd px := by
  apply total_congr
  intro k o hk
  have hne : k ≠ oid := by
    intro h
    rw [h, AList.lookup_erase] at hk
    cases hk
  have hmem : k ∈ gone.filter (· ≠ oid) ↔ k ∈ gone := by simp [hne]
  simp only [hmem]

theorem contrib_self (ops : PriceOps Px) (o : Order Px) :
    contrib ops o.side (ops.toPx o.pxd) o = o.displayQty := if_pos ⟨rfl, rfl⟩

theorem contrib_eq_zero {sd : Side} {px : ℤ} {o : Order Px}
    (h : ¬ (sd = o.side ∧ px = ops.toPx o.pxd)) : contrib ops sd px o = 0 := by
  apply if_neg
  intro hat
  exact h ⟨hat.1.symm, hat.2.symm⟩

end Sums

/-! ### What the branches do to the comparison -/

/-- Every level size is the sum over those of `orders` that an uncross has not removed. -/
def Agree (ops : PriceOps Px) (gone : List ℕ) (b : Book Px) (orders : Map ℕ (Order Px)) : Prop :=
  ∀ sd px, b.sz sd px = liveSum ops gone orders sd px

/-- The sums stay below `bound` on every level. -/
def SumsBelow (ops : PriceOps Px) (gone : List ℕ) (b : Book Px) (bound : ℕ) : Prop :=
  ∀ sd px, liveSum ops gone b.orders sd px < bound

/-- Only levels that hold an order can reach a bound. -/
theorem sumsBelow_iff {gone : List ℕ} {b : Book Px} {bound : ℕ} :
    SumsBelow ops gone b bound ↔ 0 < bound ∧ ∀ e ∈ b.orders.entries,
      liveSum ops gone b.orders e.2.side (ops.toPx e.2.pxd) < bound := by
  constructor
  · intro h
    exact ⟨Nat.zero_lt_of_lt (h .buy 0), fun e _ => h _ _⟩
  · rintro ⟨hpos, h⟩ sd px
    by_cases hat : ∃ e ∈ b.orders.entries, sd = e.2.side ∧ px = ops.toPx e.2.pxd
    · obtain ⟨e, he, rfl, rfl⟩ := hat
      exact h e he
    · have hzero : liveSum ops gone b.orders sd px = 0 := by
        apply total_eq_zero
        intro oid o ho
        have hno : ¬ (sd = o.side ∧ px = ops.toPx o.pxd) := by
          intro heq
          exact hat ⟨⟨oid, o⟩, AList.mem_lookup_iff.mp ho, heq⟩
        rw [contrib_eq_zero hno, ite_self]
      omega

instance (ops : PriceOps Px) (gone : List ℕ) (b : Book Px) (bound : ℕ) :
    Decidable (SumsBelow ops gone b bound) := decidable_of_iff _ sumsBelow_iff.symm

section Branches

variable {gone : List ℕ} {b : Book Px} {oid : ℕ} {ord : Order Px}

/-- **Taking an order off.**  Its level loses its size, or nothing when an uncross has
    emptied the level already. -/
theorem Agree.takeOff (hI : Agree ops gone b b.orders) (hsum : SumsBelow ops gone b (2 ^ 31))
    (hord : b.orders.lookup oid = some ord) (hq : ord.displayQty < 2 ^ 31)
    (hgone : oid ∈ gone → b.sz ord.side (ops.toPx ord.pxd) = 0 ∨ ord.displayQty = 0) :
    Agree ops gone (b.updateSz ord.side (ops.toPx ord.pxd) (-toInt32 ord.displayQty))
      (b.orders.erase oid) := by
  intro sd px
  have hlt : b.sz ord.side (ops.toPx ord.pxd) < 2 ^ 32 := by
    rw [hI]
    have := hsum ord.side (ops.toPx ord.pxd)
    omega
  rw [toInt32_of_lt hq, sz_updateSz_sub hlt]
  have hrest := liveSum_of_lookup ops gone hord sd px
  split
  next hat =>
    obtain ⟨rfl, rfl⟩ := hat
    rw [contrib_self, ← hI] at hrest
    by_cases hmem : oid ∈ gone
    · rw [if_pos hmem, Nat.zero_add] at hrest
      rcases hgone hmem with hzero | hzero <;> omega
    · rw [if_neg hmem] at hrest
      omega
  next hnot =>
    rw [contrib_eq_zero hnot, ite_self, Nat.zero_add, ← hI] at hrest
    exact hrest

/-- **Putting an order on.** -/
theorem Agree.putOn {orders : Map ℕ (Order Px)} (ord : Order Px)
    (hI : Agree ops gone b (orders.erase oid)) (hlive : oid ∉ gone)
    (hlad : OnLadder (ops.toPx ord.pxd)) (hq : ord.displayQty < 2 ^ 31)
    (hlt : b.sz ord.side (ops.toPx ord.pxd) < 2 ^ 31) :
    Agree ops gone (b.updateSz ord.side (ops.toPx ord.pxd) (toInt32 ord.displayQty))
      (orders.insert oid ord) := by
  intro sd px
  rw [toInt32_of_lt hq, sz_updateSz_add hlad (by omega), liveSum_insert, if_neg hlive, ← hI]
  split
  next hat =>
    obtain ⟨rfl, rfl⟩ := hat
    rw [contrib_self, Nat.add_comm]
  next hnot => rw [contrib_eq_zero hnot, Nat.zero_add]

/-- **Changing a size in place.** -/
theorem Agree.resize {ord' : Order Px} {b' : Book Px} (hI : Agree ops gone b b.orders)
    (hord : b.orders.lookup oid = some ord) (hside : ord'.side = ord.side)
    (hpx : ord'.pxd = ord.pxd)
    (hsz : ∀ sd px, b'.sz sd px = if sd = ord.side ∧ px = ops.toPx ord.pxd then
      b.sz sd px + (if oid ∈ gone then 0 else ord'.displayQty) -
        (if oid ∈ gone then 0 else ord.displayQty) else b.sz sd px) :
    Agree ops gone b' (b.orders.insert oid ord') := by
  intro sd px
  have hrest := liveSum_of_lookup ops gone hord sd px
  rw [← hI] at hrest
  rw [hsz, liveSum_insert]
  by_cases hat : sd = ord.side ∧ px = ops.toPx ord.pxd
  · have hcontrib : contrib ops sd px ord = ord.displayQty := if_pos ⟨hat.1.symm, hat.2.symm⟩
    have hcontrib' : contrib ops sd px ord' = ord'.displayQty :=
      if_pos ⟨hside.trans hat.1.symm, (congrArg ops.toPx hpx).trans hat.2.symm⟩
    rw [if_pos hat, hcontrib']
    rw [hcontrib] at hrest
    by_cases hmem : oid ∈ gone
    · simp only [hmem, if_true] at hrest ⊢
      omega
    · simp only [hmem, if_false] at hrest ⊢
      omega
  · have hnot' : ¬ (sd = ord'.side ∧ px = ops.toPx ord'.pxd) := by
      rw [hside, hpx]
      exact hat
    rw [if_neg hat, contrib_eq_zero hnot', ite_self, Nat.zero_add]
    rw [contrib_eq_zero hat, ite_self, Nat.zero_add] at hrest
    exact hrest

/-- The orders at the contra levels a New zeroes. -/
def Book.clearedIds (ops : PriceOps Px) (b : Book Px) (sd : Side) (px : ℤ) : List ℕ :=
  (b.orders.entries.filter fun e =>
    e.2.side == sd.other && b.clears sd px (ops.toPx e.2.pxd)).map Sigma.fst

theorem mem_clearedIds {sd : Side} {px : ℤ} (hord : b.orders.lookup oid = some ord) :
    oid ∈ b.clearedIds ops sd px ↔
      ord.side = sd.other ∧ b.clears sd px (ops.toPx ord.pxd) = true := by
  unfold Book.clearedIds
  rw [List.mem_map]
  constructor
  · rintro ⟨⟨k, o⟩, he, rfl⟩
    obtain ⟨hmem, hcond⟩ := List.mem_filter.mp he
    have ho : b.orders.lookup k = some o := AList.mem_lookup_iff.mpr hmem
    obtain rfl := Option.some.inj (ho.symm.trans hord)
    simpa using hcond
  · intro hcond
    refine ⟨⟨oid, ord⟩, List.mem_filter.mpr ⟨AList.mem_lookup_iff.mp hord, ?_⟩, rfl⟩
    simpa using hcond

/-- **The uncross** empties levels, and the orders at these levels are the ones it removes. -/
theorem Agree.uncross (hI : Agree ops gone b b.orders) (sd : Side) (px : ℤ) :
    Agree ops (b.clearedIds ops sd px ++ gone) (b.uncross sd px) b.orders := by
  intro sd' p
  rw [sz_uncross]
  split
  next hcleared =>
    symm
    apply total_eq_zero
    intro k o hk
    by_cases hat : sd' = o.side ∧ p = ops.toPx o.pxd
    · rw [if_pos]
      apply List.mem_append_left
      rw [mem_clearedIds hk, ← hat.1, ← hat.2]
      exact hcleared
    · rw [contrib_eq_zero hat, ite_self]
  next hkept =>
    rw [hI]
    apply total_congr
    intro k o hk
    by_cases hat : sd' = o.side ∧ p = ops.toPx o.pxd
    · have hnot : k ∉ b.clearedIds ops sd px := by
        rw [mem_clearedIds hk, ← hat.1, ← hat.2]
        exact hkept
      simp only [List.mem_append, hnot, false_or]
    · rw [contrib_eq_zero hat, ite_self, ite_self]

end Branches

/-! ### Records -/

/-- What a held order fulfils: it is priced on the ladder and no larger than a payload
    admits. -/
def Fits (ops : PriceOps Px) (o : Order Px) : Prop :=
  OnLadder (ops.toPx o.pxd) ∧ o.displayQty < 2 ^ 31

/-- What holds of a book between records. -/
structure Sound (ops : PriceOps Px) (gone : List ℕ) (b : Book Px) : Prop where
  agree : Agree ops gone b b.orders
  fits : ∀ oid o, b.orders.lookup oid = some o → Fits ops o

section Records

variable {gone : List ℕ} {b b' : Book Px} {m : Mbo Px} {ord : Order Px} {pl : Option (Payload Px)}

theorem Sound.empty (ops : PriceOps Px) (gone : List ℕ) : Sound ops gone ({} : Book Px) := by
  constructor
  · intro sd px
    cases sd <;> exact ite_self _
  · intro oid o ho
    cases ho

theorem Sound.erase_lt (hsum : SumsBelow ops gone b (2 ^ 31)) (oid : ℕ) (sd : Side) (px : ℤ) :
    liveSum ops gone (b.orders.erase oid) sd px < 2 ^ 31 := by
  have hlt := hsum sd px
  rcases hl : b.orders.lookup oid with _ | o
  · rw [liveSum_erase_of_lookup_none hl]
    exact hlt
  · rw [liveSum_of_lookup ops gone hl] at hlt
    omega

/-- A record of an order that an uncross removed changes no level: nothing is taken off a
    level that is not empty, and the order is not put back by a Change. -/
def Undisturbed (ops : PriceOps Px) (gone : List ℕ) (b : Book Px) (m : Mbo Px) : Prop :=
  match b.orders.lookup m.orderID with
  | none => True
  | some ord =>
      m.orderID ∈ gone →
        (m.orderUpdateAction = 0 ∨ m.orderUpdateAction = 2 →
          b.sz ord.side (ops.toPx ord.pxd) = 0 ∨ ord.displayQty = 0) ∧
        (m.orderUpdateAction = 1 →
          m.displayQty ≤ ord.displayQty ∧ (ops.pos m.pxd → ops.eq m.pxd ord.pxd) ∧
            (b.sz ord.side (ops.toPx ord.pxd) = 0 ∨ m.displayQty = ord.displayQty))

instance (ops : PriceOps Px) (gone : List ℕ) (b : Book Px) (m : Mbo Px) :
    Decidable (Undisturbed ops gone b m) := by
  unfold Undisturbed
  split <;> infer_instance

theorem undisturbed_nil (ops : PriceOps Px) (b : Book Px) (m : Mbo Px) :
    Undisturbed ops [] b m := by
  unfold Undisturbed
  split
  · trivial
  · intro hmem
    cases hmem

theorem Undisturbed.of_lookup (h : Undisturbed ops gone b m)
    (hord : b.orders.lookup m.orderID = some ord) (hmem : m.orderID ∈ gone) :
    (m.orderUpdateAction = 0 ∨ m.orderUpdateAction = 2 →
      b.sz ord.side (ops.toPx ord.pxd) = 0 ∨ ord.displayQty = 0) ∧
    (m.orderUpdateAction = 1 →
      m.displayQty ≤ ord.displayQty ∧ (ops.pos m.pxd → ops.eq m.pxd ord.pxd) ∧
        (b.sz ord.side (ops.toPx ord.pxd) = 0 ∨ m.displayQty = ord.displayQty)) := by
  unfold Undisturbed at h
  rw [hord] at h
  exact h hmem

/-- The orders an uncross has removed, after one more record. -/
def Book.removedBy (ops : PriceOps Px) (b : Book Px) (m : Mbo Px) (gone : List ℕ) : List ℕ :=
  if m.orderUpdateAction = 0 then
    match getSide m.side with
    | none => gone
    | some sd =>
        ((b.dropHeld ops m.orderID).place ops m sd).clearedIds ops sd (ops.toPx m.pxd) ++
          gone.filter (· ≠ m.orderID)
  else gone

theorem dropHeld_sound (hI : Sound ops gone b) (hsum : SumsBelow ops gone b (2 ^ 31)) (oid : ℕ)
    (hgone : ∀ ord, b.orders.lookup oid = some ord → oid ∈ gone →
      b.sz ord.side (ops.toPx ord.pxd) = 0 ∨ ord.displayQty = 0) :
    Sound ops gone (b.dropHeld ops oid) ∧ (b.dropHeld ops oid).orders.lookup oid = none ∧
      SumsBelow ops gone (b.dropHeld ops oid) (2 ^ 31) := by
  unfold Book.dropHeld
  rcases hl : b.orders.lookup oid with _ | ex
  · exact ⟨hI, hl, hsum⟩
  · refine ⟨⟨?_, ?_⟩, AList.lookup_erase _ _, ?_⟩
    · intro sd px
      rw [sz_orders]
      exact hI.agree.takeOff hsum hl (hI.fits _ _ hl).2 (hgone ex hl) sd px
    · exact forall_erase hI.fits
    · intro sd px
      exact Sound.erase_lt hsum oid sd px

theorem place_sound (hI : Sound ops gone b) (hsum : SumsBelow ops gone b (2 ^ 31))
    (hlad : OnLadder (ops.toPx m.pxd)) (hun : Undisturbed ops gone b m)
    (haction : m.orderUpdateAction = 0) (hq : m.displayQty < 2 ^ 31) (sd : Side) :
    Sound ops (gone.filter (· ≠ m.orderID)) ((b.dropHeld ops m.orderID).place ops m sd) := by
  obtain ⟨hdrop, hnone, hsum'⟩ := dropHeld_sound hI hsum m.orderID
    fun ord hord hmem => (hun.of_lookup hord hmem).1 (.inl haction)
  have hbase : Agree ops (gone.filter (· ≠ m.orderID)) (b.dropHeld ops m.orderID)
      ((b.dropHeld ops m.orderID).orders.erase m.orderID) := by
    intro sd' px
    rw [liveSum_filter_erase, liveSum_erase_of_lookup_none hnone]
    exact hdrop.agree sd' px
  constructor
  · intro sd' px
    unfold Book.place
    rw [sz_orders]
    refine hbase.putOn ⟨sd, m.pxd, m.displayQty, m.displayQty_lt⟩ (by simp) hlad hq ?_
      sd' px
    rw [hdrop.agree]
    exact hsum' _ _
  · exact forall_insert hdrop.fits ⟨hlad, hq⟩

/-- What a New that does not abort does. -/
theorem add_cases (h : b.add ops m = some (b', pl)) :
    ∃ sd, getSide m.side = some sd ∧ m.displayQty < 2 ^ 31 ∧
      b' = ((b.dropHeld ops m.orderID).place ops m sd).uncross sd (ops.toPx m.pxd) := by
  unfold Book.add at h
  rcases hside : getSide m.side with _ | sd
  · rw [hside] at h
    cases h
  · rw [hside] at h
    obtain ⟨p, hp, heq⟩ := Option.map_eq_some_iff.mp h
    obtain ⟨-, hvalid, -⟩ := makePayload_eq_some.mp hp
    refine ⟨sd, rfl, ?_, (congrArg Prod.fst heq).symm⟩
    exact lt_of_toInt32_nonneg m.displayQty_lt (Payload.sizes_of_isValid (.inl rfl) hvalid).2.2

theorem add_sound (hI : Sound ops gone b) (hsum : SumsBelow ops gone b (2 ^ 31))
    (hlad : OnLadder (ops.toPx m.pxd)) (hun : Undisturbed ops gone b m)
    (haction : m.orderUpdateAction = 0) (h : b.add ops m = some (b', pl)) :
    Sound ops (b.removedBy ops m gone) b' := by
  obtain ⟨sd, hside, hq, rfl⟩ := add_cases h
  have hplace := place_sound hI hsum hlad hun haction hq sd
  unfold Book.removedBy
  rw [if_pos haction, hside]
  constructor
  · intro sd' px
    rw [orders_uncross]
    exact hplace.agree.uncross sd _ sd' px
  · rw [orders_uncross]
    exact hplace.fits

theorem cancReplace_cases (h : b.cancReplace ops m ord = some b') :
    (ord.displayQty < m.displayQty ∧ ops.eq m.pxd ord.pxd = true ∧
        0 < toInt32 (m.displayQty - ord.displayQty) ∧
        b' = b.resize ops m ord (toInt32 (m.displayQty - ord.displayQty))) ∨
      (¬ ops.eq m.pxd ord.pxd = true ∧ b' = b.moveTo ops m ord ord.displayQty m.displayQty) := by
  unfold Book.cancReplace at h
  split at h
  next hgrow =>
    left
    dsimp only at h
    split at h
    next hpos => exact ⟨hgrow.1, hgrow.2, hpos, (Option.some.inj h).symm⟩
    next => cases h
  next =>
    right
    split at h
    next hmove =>
      refine ⟨hmove.2, ?_⟩
      split at h
      · dsimp only at h
        split at h
        · exact (Option.some.inj h).symm
        · cases h
      · rw [hmove.1] at h ⊢
        exact (Option.some.inj h).symm
    next =>
      split at h
      next hboth =>
        split at h
        · exact ⟨hboth.2, (Option.some.inj h).symm⟩
        · cases h
      next =>
        split at h
        next hdecrease => exact ⟨hdecrease.2, (Option.some.inj h).symm⟩
        next => cases h

/-- What a Change of a held order does: grow it in place, move it, or shrink it in place. -/
theorem canc_cases (hl : b.orders.lookup m.orderID = some ord)
    (h : b.canc ops m = some (b', pl)) :
    m.displayQty < 2 ^ 31 ∧
      ((ord.displayQty < m.displayQty ∧ ops.eq m.pxd ord.pxd = true ∧
          0 < toInt32 (m.displayQty - ord.displayQty) ∧
          b' = b.resize ops m ord (toInt32 (m.displayQty - ord.displayQty))) ∨
        ((ord.displayQty < m.displayQty ∨ ops.pos m.pxd = true) ∧ ¬ ops.eq m.pxd ord.pxd = true ∧
          b' = b.moveTo ops m ord ord.displayQty m.displayQty) ∨
        (m.displayQty ≤ ord.displayQty ∧ (ops.pos m.pxd = true → ops.eq m.pxd ord.pxd = true) ∧
          b' = b.resize ops m ord (-(toInt32 ord.displayQty - toInt32 m.displayQty)))) := by
  unfold Book.canc at h
  rw [hl] at h
  obtain ⟨c, hc, hpay⟩ := Option.bind_eq_some_iff.mp h
  have hpost : c = b' ∧ m.displayQty < 2 ^ 31 := by
    split at hpay
    · cases hpay
    · obtain ⟨p, hp, heq⟩ := Option.map_eq_some_iff.mp hpay
      obtain ⟨-, hvalid, -⟩ := makePayload_eq_some.mp hp
      refine ⟨congrArg Prod.fst heq, ?_⟩
      exact lt_of_toInt32_nonneg m.displayQty_lt (Payload.sizes_of_isValid (.inr rfl) hvalid).2.2
  obtain ⟨rfl, hq⟩ := hpost
  refine ⟨hq, ?_⟩
  split at hc
  next hreplace =>
    rcases cancReplace_cases hc with hgrow | ⟨hne, hmove⟩
    · exact .inl hgrow
    · exact .inr (.inl ⟨hreplace.imp_right And.left, hne, hmove⟩)
  next hreduce =>
    rw [not_or, not_lt, not_and, not_not] at hreduce
    right
    right
    exact ⟨hreduce.1, hreduce.2, (Option.some.inj hc).symm⟩

/-- A Delete of a held order; at a price off the ladder there is no size to take off. -/
theorem cancd_cases (hl : b.orders.lookup m.orderID = some ord)
    (h : b.cancd ops m = some (b', pl)) :
    b' = { b.updateSz ord.side (ops.toPx ord.pxd) (-toInt32 ord.displayQty) with
      orders := b.orders.erase m.orderID } := by
  unfold Book.cancd at h
  rw [hl] at h
  dsimp only at h
  split at h
  next hoff =>
    cases h
    unfold Book.updateSz
    rw [updateSz_of_offLadder hoff]
    cases ord.side <;> rfl
  next =>
    split at h
    · obtain ⟨p, -, heq⟩ := Option.map_eq_some_iff.mp h
      exact (congrArg Prod.fst heq).symm
    · cases h

theorem cancd_sound (hI : Sound ops gone b) (hsum : SumsBelow ops gone b (2 ^ 31))
    (hun : Undisturbed ops gone b m) (haction : m.orderUpdateAction = 2)
    (h : b.cancd ops m = some (b', pl)) : Sound ops gone b' := by
  rcases hl : b.orders.lookup m.orderID with _ | ord
  · unfold Book.cancd at h
    rw [hl] at h
    cases h
    exact hI
  · have hoff := hI.agree.takeOff hsum hl (hI.fits _ _ hl).2
      fun hmem => (hun.of_lookup hl hmem).1 (.inr haction)
    rw [cancd_cases hl h]
    exact ⟨fun sd px => by rw [sz_orders]; exact hoff sd px, forall_erase hI.fits⟩

/-- What a record of a held or new order does to the book; others leave it alone. -/
theorem applyMbo_cases (h : b.applyMbo ops m = some (b', pl)) :
    (∃ sd, m.orderUpdateAction = 0 ∧ getSide m.side = some sd ∧ m.displayQty < 2 ^ 31 ∧
        b' = ((b.dropHeld ops m.orderID).place ops m sd).uncross sd (ops.toPx m.pxd)) ∨
      (∃ ord, m.orderUpdateAction = 1 ∧ b.orders.lookup m.orderID = some ord ∧
        m.displayQty < 2 ^ 31 ∧ (b' = b.moveTo ops m ord ord.displayQty m.displayQty ∨
          ∃ delta, b' = b.resize ops m ord delta)) ∨
      (∃ ord, m.orderUpdateAction = 2 ∧ b.orders.lookup m.orderID = some ord ∧
        b' = { b.updateSz ord.side (ops.toPx ord.pxd) (-toInt32 ord.displayQty) with
          orders := b.orders.erase m.orderID }) ∨
      b' = b := by
  unfold Book.applyMbo at h
  split at h
  next hnew =>
    obtain ⟨sd, hside, hq, hb⟩ := add_cases h
    exact .inl ⟨sd, hnew, hside, hq, hb⟩
  · right
    split at h
    next hchange =>
      rcases hl : b.orders.lookup m.orderID with _ | ord
      · unfold Book.canc at h
        rw [hl] at h
        cases h
        exact .inr (.inr rfl)
      · obtain ⟨hq, ⟨-, -, -, hb⟩ | ⟨-, -, hb⟩ | ⟨-, -, hb⟩⟩ := canc_cases hl h
        · exact .inl ⟨ord, hchange, rfl, hq, .inr ⟨_, hb⟩⟩
        · exact .inl ⟨ord, hchange, rfl, hq, .inl hb⟩
        · exact .inl ⟨ord, hchange, rfl, hq, .inr ⟨_, hb⟩⟩
    · right
      split at h
      next hdelete =>
        rcases hl : b.orders.lookup m.orderID with _ | ord
        · unfold Book.cancd at h
          rw [hl] at h
          cases h
          exact .inr rfl
        · exact .inl ⟨ord, hdelete, rfl, cancd_cases hl h⟩
      · cases h
        exact .inr rfl

/-- A live order grows in place. -/
theorem grow_sound (hI : Sound ops gone b) (hsum : SumsBelow ops gone b (2 ^ 31))
    (hl : b.orders.lookup m.orderID = some ord) (hq : m.displayQty < 2 ^ 31)
    (hgrow : ord.displayQty < m.displayQty) (hlive : m.orderID ∉ gone) :
    Sound ops gone (b.resize ops m ord (toInt32 (m.displayQty - ord.displayQty))) := by
  have hfits := hI.fits _ _ hl
  refine ⟨?_, forall_insert hI.fits ⟨hfits.1, hq⟩⟩
  refine hI.agree.resize hl rfl rfl ?_
  intro sd px
  have hsmall : b.sz ord.side (ops.toPx ord.pxd) < 2 ^ 31 := by
    rw [hI.agree]
    exact hsum _ _
  unfold Book.resize
  rw [sz_orders, toInt32_of_lt (by omega), if_neg hlive, if_neg hlive,
    sz_updateSz_add hfits.1 (by omega)]
  by_cases hat : sd = ord.side ∧ px = ops.toPx ord.pxd
  · rw [if_pos hat, if_pos hat, hat.1, hat.2]
    dsimp only
    omega
  · rw [if_neg hat, if_neg hat]

/-- An order shrinks in place; one that an uncross removed has nothing on its level, or keeps
    its size. -/
theorem shrink_sound (hI : Sound ops gone b) (hsum : SumsBelow ops gone b (2 ^ 31))
    (hl : b.orders.lookup m.orderID = some ord) (hq : m.displayQty < 2 ^ 31)
    (hshrink : m.displayQty ≤ ord.displayQty)
    (hquiet : m.orderID ∈ gone → m.displayQty = ord.displayQty ∨
      b.sz ord.side (ops.toPx ord.pxd) = 0) :
    Sound ops gone (b.resize ops m ord (-(toInt32 ord.displayQty - toInt32 m.displayQty))) := by
  have hfits := hI.fits _ _ hl
  have hle : m.orderID ∉ gone → ord.displayQty ≤ b.sz ord.side (ops.toPx ord.pxd) := by
    intro hmem
    rw [hI.agree, liveSum_of_lookup ops gone hl, if_neg hmem, contrib_self]
    omega
  have hsmall : b.sz ord.side (ops.toPx ord.pxd) < 2 ^ 31 := by
    rw [hI.agree]
    exact hsum _ _
  have hdelta : -(toInt32 ord.displayQty - toInt32 m.displayQty) =
      -((ord.displayQty - m.displayQty : ℕ) : ℤ) := by
    rw [toInt32_of_lt hfits.2, toInt32_of_lt hq]
    omega
  refine ⟨?_, forall_insert hI.fits ⟨hfits.1, hq⟩⟩
  refine hI.agree.resize hl rfl rfl ?_
  intro sd px
  unfold Book.resize
  rw [sz_orders, hdelta, sz_updateSz_sub (by omega)]
  by_cases hat : sd = ord.side ∧ px = ops.toPx ord.pxd
  · rw [if_pos hat, if_pos hat, hat.1, hat.2]
    by_cases hmem : m.orderID ∈ gone
    · have := hquiet hmem
      rw [if_pos hmem, if_pos hmem]
      omega
    · have := hle hmem
      rw [if_neg hmem, if_neg hmem]
      dsimp only
      omega
  · rw [if_neg hat, if_neg hat]

/-- A live order moves: its size leaves the old level and joins the new one. -/
theorem moveTo_sound (hI : Sound ops gone b) (hsum : SumsBelow ops gone b (2 ^ 31))
    (hl : b.orders.lookup m.orderID = some ord) (hq : m.displayQty < 2 ^ 31)
    (hlad : OnLadder (ops.toPx m.pxd)) (hlive : m.orderID ∉ gone) :
    Sound ops gone (b.moveTo ops m ord ord.displayQty m.displayQty) := by
  have hfits := hI.fits _ _ hl
  refine ⟨?_, forall_insert hI.fits ⟨hlad, hq⟩⟩
  have hoff := hI.agree.takeOff hsum hl hfits.2 fun hmem => absurd hmem hlive
  intro sd px
  unfold Book.moveTo
  rw [sz_orders]
  refine hoff.putOn ⟨ord.side, m.pxd, m.displayQty, m.displayQty_lt⟩ hlive hlad hq ?_ sd px
  rw [hoff]
  exact Sound.erase_lt hsum _ _ _

theorem canc_sound (hI : Sound ops gone b) (hsum : SumsBelow ops gone b (2 ^ 31))
    (hlad : OnLadder (ops.toPx m.pxd)) (hun : Undisturbed ops gone b m)
    (haction : m.orderUpdateAction = 1) (h : b.canc ops m = some (b', pl)) :
    Sound ops gone b' := by
  rcases hl : b.orders.lookup m.orderID with _ | ord
  · unfold Book.canc at h
    rw [hl] at h
    cases h
    exact hI
  · have hquiet := fun hmem => (hun.of_lookup hl hmem).2 haction
    obtain ⟨hq, hcases⟩ := canc_cases hl h
    rcases hcases with ⟨hgrow, -, -, rfl⟩ | ⟨hchanged, hne, rfl⟩ | ⟨hshrink, -, rfl⟩
    · refine grow_sound hI hsum hl hq hgrow fun hmem => ?_
      have := (hquiet hmem).1
      omega
    · refine moveTo_sound hI hsum hl hq hlad fun hmem => ?_
      obtain ⟨hsmall, heq, -⟩ := hquiet hmem
      rcases hchanged with hlarge | hpos
      · omega
      · exact hne (heq hpos)
    · refine shrink_sound hI hsum hl hq hshrink fun hmem => ?_
      have := (hquiet hmem).2.2
      omega

/-- **One book record.** -/
theorem applyMbo_sound (hI : Sound ops gone b) (hsum : SumsBelow ops gone b (2 ^ 31))
    (hlad : m.orderUpdateAction = 0 ∨ m.orderUpdateAction = 1 → OnLadder (ops.toPx m.pxd))
    (hun : Undisturbed ops gone b m) (h : b.applyMbo ops m = some (b', pl)) :
    Sound ops (b.removedBy ops m gone) b' := by
  unfold Book.applyMbo at h
  split at h
  next hadd => exact add_sound hI hsum (hlad (.inl hadd)) hun hadd h
  next hadd =>
    unfold Book.removedBy
    rw [if_neg hadd]
    split at h
    next hcanc => exact canc_sound hI hsum (hlad (.inr hcanc)) hun hcanc h
    next =>
      split at h
      next hcancd => exact cancd_sound hI hsum hun hcancd h
      next =>
        cases h
        exact hI

end Records

/-! ### Steps and runs -/

/-- The record is one of this book's instrument and the book has its scale. -/
def State.Reads (s : State Px) (a : Asset) (m : Mbo Px) : Prop :=
  (s.latch a).haveScale = true ∧ m.securityID = (s.latch a).secId

instance (s : State Px) (a : Asset) (m : Mbo Px) : Decidable (s.Reads a m) :=
  inferInstanceAs (Decidable (_ ∧ _))

theorem publishBook_toBook {s s' : State Px} {pl : Payload Px} {o : List (Out Px)}
    (h : s.publishBook pl = some (s', o)) : s'.toBook = s.toBook := by
  unfold State.publishBook at h
  dsimp only at h
  split at h
  · cases h
    rfl
  · split at h
    · cases h
      rfl
    · split at h
      · split at h
        · cases h
        · cases h
          rfl
      · cases h
        rfl

theorem onMbo_toBook {s s' : State Px} {m : Mbo Px} {o : List (Out Px)}
    (hsec : m.securityID = s.secId) (h : s.onMbo ops m = some (s', o)) :
    ∃ pl, s.toBook.applyMbo ops m = some (s'.toBook, pl) := by
  unfold State.onMbo at h
  rw [if_neg (not_not_intro hsec)] at h
  dsimp only at h
  rcases hb : s.toBook.applyMbo ops m with _ | ⟨b, pl⟩
  · rw [hb] at h
    cases h
  · rw [hb] at h
    refine ⟨pl, ?_⟩
    rcases pl with _ | pl
    · cases h
      rfl
    · dsimp only at h
      split at h
      · cases h
        rfl
      · obtain ⟨⟨t, o'⟩, ht, heq⟩ := Option.map_eq_some_iff.mp h
        cases heq
        rw [publishBook_toBook ht]

theorem onMbo_of_ne (ops : PriceOps Px) {s : State Px} {m : Mbo Px}
    (hsec : m.securityID ≠ s.secId) : s.onMbo ops m = some (s, []) := if_pos hsec

/-- **What a message does to the book**: a record of this instrument is applied, a channel
    reset empties it, and nothing else touches it. -/
theorem step_book {s s' : State Px} {e : Event Px} {o : List (Out Px)}
    (h : step ops s e = some (s', o)) :
    (∃ a m pl, e = .data a (.mbo m) ∧ s.Reads a m ∧
        s.toBook.applyMbo ops m = some (s'.toBook, pl)) ∨
      s'.toBook = {} ∧ (∃ a, e = .data a .chr) ∨
      s'.toBook = s.toBook ∧ ∀ a m, e = .data a (.mbo m) → ¬ s.Reads a m := by
  cases e with
  | data a l3 =>
      unfold step State.dataHandler at h
      dsimp only at h
      split at h
      next hscale =>
        cases h
        right
        right
        refine ⟨rfl, ?_⟩
        rintro a' m heq ⟨hhave, -⟩
        cases heq
        rw [hscale] at hhave
        cases hhave
      next hscale =>
        cases l3 with
        | mbo m =>
            by_cases hsec : m.securityID = (s.latch a).secId
            · obtain ⟨pl, hpl⟩ := onMbo_toBook hsec h
              exact .inl ⟨a, m, pl, rfl, ⟨by simpa using hscale, hsec⟩, hpl⟩
            · right
              right
              have hother := onMbo_of_ne ops hsec
              dsimp only at h
              rw [hother] at h
              cases h
              refine ⟨rfl, ?_⟩
              rintro a' m' heq ⟨-, hread⟩
              cases heq
              exact hsec hread
        | mboTrd t =>
            right
            right
            refine ⟨?_, fun a' m heq => by cases heq⟩
            dsimp only [State.onTrd] at h
            split at h
            · cases h
              rfl
            · obtain ⟨p, -, heq⟩ := Option.map_eq_some_iff.mp h
              cases heq
              rfl
        | chr =>
            cases h
            exact .inr (.inl ⟨rfl, a, rfl⟩)
        | gap =>
            cases h
            exact .inr (.inr ⟨rfl, fun a' m heq => by cases heq⟩)
        | other =>
            cases h
            exact .inr (.inr ⟨rfl, fun a' m heq => by cases heq⟩)
  | setExSymId id =>
      cases h
      exact .inr (.inr ⟨rfl, fun a' m heq => by cases heq⟩)
  | bbboSub =>
      cases h
      exact .inr (.inr ⟨rfl, fun a' m heq => by cases heq⟩)
  | shutdown =>
      cases h
      exact .inr (.inr ⟨rfl, fun a' m heq => by cases heq⟩)

/-- The records of this book's instrument meet `P`, with the book before the record. -/
def RecordMeets (P : Book Px → Mbo Px → Prop) (s : State Px) (e : Event Px) : Prop :=
  match e with
  | .data a (.mbo m) => s.Reads a m → P s.toBook m
  | _ => True

instance (P : Book Px → Mbo Px → Prop) [∀ b m, Decidable (P b m)] (s : State Px)
    (e : Event Px) : Decidable (RecordMeets P s e) := by
  unfold RecordMeets
  split <;> infer_instance

/-- The ids an uncross has removed, after one more message. -/
def uncrossed (ops : PriceOps Px) (s : State Px) (e : Event Px) (gone : List ℕ) : List ℕ :=
  match e with
  | .data a (.mbo m) => if s.Reads a m then s.toBook.removedBy ops m gone else gone
  | _ => gone

/-- The prices of New and Change records are on the ladder. -/
def PricedOnLadder (ops : PriceOps Px) (m : Mbo Px) : Prop :=
  m.orderUpdateAction = 0 ∨ m.orderUpdateAction = 1 → OnLadder (ops.toPx m.pxd)

instance (ops : PriceOps Px) (m : Mbo Px) : Decidable (PricedOnLadder ops m) :=
  inferInstanceAs (Decidable (_ → _))

/-- **The step lemma.** -/
theorem step_sound {s s' : State Px} {gone : List ℕ} {e : Event Px} {o : List (Out Px)}
    (hI : Sound ops gone s.toBook) (hsum : SumsBelow ops gone s.toBook (2 ^ 31))
    (hrec : RecordMeets (fun b m => PricedOnLadder ops m ∧ Undisturbed ops gone b m) s e)
    (h : step ops s e = some (s', o)) : Sound ops (uncrossed ops s e gone) s'.toBook := by
  rcases step_book h with ⟨a, m, pl, rfl, hread, hb⟩ | ⟨hempty, a, rfl⟩ | ⟨hsame, hother⟩
  · obtain ⟨hlad, hun⟩ := hrec hread
    unfold uncrossed
    dsimp only
    rw [if_pos hread]
    exact applyMbo_sound hI hsum hlad hun hb
  · rw [hempty]
    exact Sound.empty ops _
  · have hgone : uncrossed ops s e gone = gone := by
      unfold uncrossed
      split
      next a m => exact if_neg (hother a m rfl)
      next => rfl
    rw [hgone, hsame]
    exact hI

/-! ### Books whose New orders do not cross -/

/-- A contra price `p` is at or through the price `px` of a New on side `sd`. -/
def through : Side → ℤ → ℤ → Bool
  | .buy, px, p => p ≤ px
  | .sel, px, p => px ≤ p

/-- The New does not cross: no other order of the opposite side with a size left is priced at
    or through it. -/
def NoCross (ops : PriceOps Px) (b : Book Px) (m : Mbo Px) : Prop :=
  ∀ e ∈ b.orders.entries, e.1 ≠ m.orderID → getSide m.side = some e.2.side.other →
    through e.2.side.other (ops.toPx m.pxd) (ops.toPx e.2.pxd) = true → e.2.displayQty = 0

instance (ops : PriceOps Px) (b : Book Px) (m : Mbo Px) : Decidable (NoCross ops b m) :=
  List.decidableBAll _ _

theorem through_of_clears {b : Book Px} {sd : Side} {px p : ℤ} (h : b.clears sd px p = true) :
    through sd px p = true ∧ 0 < b.sz sd.other p := by
  unfold Book.clears at h
  cases sd with
  | buy =>
      simp only [Bool.and_eq_true, decide_eq_true_eq] at h
      exact ⟨decide_eq_true h.1.2, h.2⟩
  | sel =>
      simp only [Bool.and_eq_true, decide_eq_true_eq] at h
      exact ⟨decide_eq_true h.1.1.2, h.2⟩

theorem place_lookup_of_ne {b : Book Px} {m : Mbo Px} {sd : Side} {k : ℕ} (h : k ≠ m.orderID) :
    ((b.dropHeld ops m.orderID).place ops m sd).orders.lookup k = b.orders.lookup k := by
  unfold Book.place Book.dropHeld
  dsimp only
  rw [AList.lookup_insert_ne h]
  split
  · rfl
  · exact AList.lookup_erase_ne h

/-- A New that does not cross removes nothing. -/
theorem removedBy_of_noCross {b b' : Book Px} {m : Mbo Px} {pl : Option (Payload Px)}
    (hI : Sound ops [] b) (hsum : SumsBelow ops [] b (2 ^ 31)) (hlad : PricedOnLadder ops m)
    (hcross : m.orderUpdateAction = 0 → NoCross ops b m)
    (h : b.applyMbo ops m = some (b', pl)) : b.removedBy ops m [] = [] := by
  unfold Book.removedBy
  split
  next hadd =>
    unfold Book.applyMbo at h
    rw [if_pos hadd] at h
    obtain ⟨sd, hside, hq, -⟩ := add_cases h
    have hplace := place_sound hI hsum (hlad (.inl hadd)) (undisturbed_nil ops b m) hadd hq sd
    rw [hside]
    dsimp only
    rw [List.filter_nil, List.append_nil, List.eq_nil_iff_forall_not_mem]
    intro oid hmem
    obtain ⟨⟨k, o⟩, he, rfl⟩ := List.mem_map.mp hmem
    have hk := AList.mem_lookup_iff.mpr (List.mem_filter.mp he).1
    obtain ⟨-, hclears⟩ := (mem_clearedIds hk).mp hmem
    obtain ⟨hthrough, hpos⟩ := through_of_clears hclears
    -- a level that is cleared would hold an order that the New crosses
    rw [hplace.agree, List.filter_nil] at hpos
    refine absurd ?_ (Nat.pos_iff_ne_zero.mp hpos)
    apply total_eq_zero
    intro k' o' hk'
    by_cases hat : sd.other = o'.side ∧ ops.toPx o.pxd = ops.toPx o'.pxd
    · have hne : k' ≠ m.orderID := by
        intro heq
        rw [heq, Book.place, AList.lookup_insert] at hk'
        obtain rfl := Option.some.inj hk'
        cases sd <;> cases hat.1
      rw [place_lookup_of_ne hne] at hk'
      have hback : o'.side.other = sd := by
        rw [← hat.1]
        cases sd <;> rfl
      have hzero : o'.displayQty = 0 := by
        refine hcross hadd ⟨k', o'⟩ (AList.mem_lookup_iff.mp hk') hne ?_ ?_
        · rw [hside, hback]
        · rw [hback, ← hat.2]
          exact hthrough
      rw [contrib, hzero, ite_self, ite_self]
    · rw [contrib_eq_zero hat, ite_self]
  next => rfl

/-- Prices on the ladder and no crossing New keep levels and orders in agreement. -/
theorem sound_of_run {s : State Px} {es : List (Event Px)} {out : List (Out Px)}
    (hrun : run (step ops) {} es = some (s, out))
    (hrec : AllSteps (step ops) (fun s e =>
      RecordMeets (fun b m =>
        PricedOnLadder ops m ∧ (m.orderUpdateAction = 0 → NoCross ops b m)) s e ∧
      SumsBelow ops [] s.toBook 1000000) {} es) : Sound ops [] s.toBook := by
  refine run_induction (I := fun _ _ s => Sound ops [] s.toBook) (Sound.empty ops []) ?_ hrec hrun
  intro _ _ s e s' o hI hP hs
  obtain ⟨hmeets, hbelow⟩ := hP
  have hsum : SumsBelow ops [] s.toBook (2 ^ 31) := by
    intro sd px
    have := hbelow sd px
    omega
  have hstep : uncrossed ops s e [] = [] := by
    rcases step_book hs with ⟨a, m, pl, rfl, hread, hb⟩ | ⟨-, a, rfl⟩ | ⟨-, hother⟩
    · obtain ⟨hlad, hcross⟩ := hmeets hread
      unfold uncrossed
      dsimp only
      rw [if_pos hread]
      exact removedBy_of_noCross hI hsum hlad hcross hb
    · rfl
    · unfold uncrossed
      split
      next a m => exact if_neg (hother a m rfl)
      next => rfl
  rw [← hstep]
  refine step_sound hI hsum ?_ hs
  unfold RecordMeets
  split
  next a m =>
    intro hread
    exact ⟨(hmeets hread).1, undisturbed_nil ops s.toBook m⟩
  next => trivial

/-- **Level sums.**  In every run in which prices are on the ladder, no New crosses and the
    sums stay below 1,000,000, every level size is the sum over the orders held there. -/
theorem levels_sum_orders {s : State Px} {es : List (Event Px)} {out : List (Out Px)}
    (hrun : run (step ops) {} es = some (s, out))
    (hrec : AllSteps (step ops) (fun s e =>
      RecordMeets (fun b m =>
        PricedOnLadder ops m ∧ (m.orderUpdateAction = 0 → NoCross ops b m)) s e ∧
      SumsBelow ops [] s.toBook 1000000) {} es) (sd : Side) (px : ℤ) :
    (s.side sd).getSz px = levelSum ops s.orders sd px := by
  rw [← liveSum_nil]
  exact (sound_of_run hrun hrec).agree sd px

theorem mod_lt_2_32 (qty : ℕ) : qty % 2 ^ 32 < 2 ^ 32 := Nat.mod_lt _ (by decide)

/-- A live record of instrument 1. -/
def record (action oid : ℕ) (side : Char) (px : ℤ) (qty : ℕ) : Event ℤ :=
  .data ⟨1, true⟩ (.mbo
    { venue := 1, transactTime := 1, sendingTime := 1, orderUpdateAction := action
      securityID := 1, orderID := oid, pxd := px, displayQty := qty % 2 ^ 32
      displayQty_lt := Nat.mod_lt _ (by decide), side := side, endOfEvent := true
      recovery := false })

/-- Two bids share a level; one is re-sent smaller, one grows, a third moves and goes. -/
theorem levels_sum_two_bids :
    ∃ s out, run (step tickOps) {}
        [record 0 1 '0' 20 5, record 0 2 '0' 20 3, record 0 3 '1' 22 7, record 0 4 '0' 19 2,
          record 0 1 '0' 20 4, record 1 2 '0' 20 6, record 1 4 '0' 20 1, record 2 4 '0' 20 1] =
        some (s, out) ∧
      (s.side .buy).getSz 20 = levelSum tickOps s.orders .buy 20 := by
  obtain ⟨⟨s, out⟩, hrun⟩ := Option.isSome_iff_exists.mp (by decide +kernel :
    (run (step tickOps) {}
      [record 0 1 '0' 20 5, record 0 2 '0' 20 3, record 0 3 '1' 22 7, record 0 4 '0' 19 2,
        record 0 1 '0' 20 4, record 1 2 '0' 20 6, record 1 4 '0' 20 1,
        record 2 4 '0' 20 1]).isSome = true)
  exact ⟨s, out, hrun, levels_sum_orders hrun (by decide +kernel) .buy 20⟩

end KasparHft.TachBook
