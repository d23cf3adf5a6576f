import KasparHft.RefBook
import KasparHft.TachBookBest
import KasparHft.TachBookSlate

/-!
# Two books side by side

`unit_test/obcmp/obcmp.cpp`: the tool feeds the records of one instrument to the level book
and to the reference book, and writes what the reference market is after each.  `main` is
modelled from where the books have been made; the order book it feeds beside them shares
nothing with either and is left out, and so are the files and the counts.

The two books differ in what they do with an order that an uncross takes out (the level
book keeps it in its map), with a Change that crosses, with a Change of an order that is not
held, and with a New without a size or a price.  Away from these they are the same market.
-/

namespace KasparHft.Obcmp

open AssocMap Machine TotalIndex
open TachBook (Book Order OnLadder Sound liveSum contrib)

variable {Px : Type}

/-! ### The tool -/

/-- The arguments of the command line. -/
structure Args where
  want : ℤ
  t0 : ℕ
  t1 : ℕ

/-- A line of `levels_ref.csv`: a bid with its size and an offer with its size. -/
abbrev Row := ℤ × ℤ × ℤ × ℤ

structure Comparison (Px : Type) where
  tb : TachBook.State Px := {}
  ref : RefBook := {}
  ourOrders : List ℕ := []
  /-- `pb`, `pbs`, `pa` and `pas`. -/
  last : Row := (-1, -1, -1, -1)
  /-- The loop has been left. -/
  left : Bool := false

inductive Output (Px : Type) where
  | tachbook (o : TachBook.Out Px)
  | level (time : ℕ) (row : Row)

/-- The asset made of the definition of the instrument, whose tick is not zero. -/
def Args.asset (args : Args) : TachBook.Asset := ⟨args.want, true⟩

/-- `in_window`. -/
def Args.inWindow (args : Args) (t : ℕ) : Bool := args.t0 ≤ t && t < args.t1

/-- A live record a second past the window, at which the loop is left. -/
def Args.past (args : Args) (m : Mbo Px) : Bool :=
  !m.recovery && (args.t1 + 1000000000) % 2 ^ 64 ≤ m.transactTime

/-- A line is written when the record is in the window and the reference market has changed. -/
def Args.emit (args : Args) (s : Comparison Px) (time : ℕ) : Comparison Px × List (Output Px) :=
  match s.ref.top with
  | none => (s, [])
  | some row =>
      if args.inWindow time ∧ row ≠ s.last then ({ s with last := row }, [.level time row])
      else (s, [])

/-- A book record of an instrument. -/
def Args.onMbo (args : Args) (ops : PriceOps Px) (ticks : Px → ℤ) (s : Comparison Px) (m : Mbo Px) :
    Option (Comparison Px × List (Output Px)) :=
  if s.left ∨ m.securityID ≠ args.want then some (s, [])
  else if args.past m then some ({ s with left := true }, [])
  else
    (TachBook.step ops s.tb (.data args.asset (.mbo m))).map fun (tb, out) =>
      let r := args.emit { s with
        tb := tb
        ref := s.ref.apply ops ticks m
        ourOrders := if m.orderUpdateAction = 0 then m.orderID :: s.ourOrders else s.ourOrders }
        m.transactTime
      (r.1, out.map .tachbook ++ r.2)

/-- A trade record, fed when its order has been added. -/
def Args.onTrd (args : Args) (ops : PriceOps Px) (s : Comparison Px) (t : MboTrd) :
    Option (Comparison Px × List (Output Px)) :=
  if s.left ∨ t.orderID ∉ s.ourOrders then some (s, [])
  else
    (TachBook.step ops s.tb (.data args.asset (.mboTrd t))).map fun (tb, out) =>
      ({ s with tb := tb }, out.map .tachbook)

/-- A record is read. -/
def Args.step (args : Args) (ops : PriceOps Px) (ticks : Px → ℤ) (s : Comparison Px) :
    L3 Px → Option (Comparison Px × List (Output Px))
  | .mbo m => args.onMbo ops ticks s m
  | .mboTrd t => args.onTrd ops s t
  | _ => some (s, [])

/-! ### The same market -/

section Mirrors

variable {ops : PriceOps Px} {ticks : Px → ℤ} {gone : List ℕ} {b b' : Book Px} {r : RefBook}
  {m : Mbo Px} {k : ℕ} {ord : Order Px}

/-- What the reference book holds of an order of the level book: nothing of one that an
    uncross has taken out or that has no size left. -/
def live (ops : PriceOps Px) (gone : List ℕ) (k : ℕ) (ord : Order Px) : Option Ord :=
  if k ∈ gone ∨ ord.displayQty = 0 then none
  else some ⟨ord.side, ops.toPx ord.pxd, ord.displayQty⟩

/-- The two books hold the same market. -/
structure Mirrors (ops : PriceOps Px) (gone : List ℕ) (b : Book Px) (r : RefBook) : Prop where
  sound : Sound ops gone b
  summed : r.Summed
  uncrossed : r.Uncrossed
  orders : ∀ k, r.ord.lookup k = (b.orders.lookup k).bind (live ops gone k)
  noneBetter : ∀ sd, (b.side sd).NoneBetter sd
  attained : ∀ sd, (b.side sd).Attained sd

theorem Mirrors.empty (ops : PriceOps Px) : Mirrors ops [] ({} : Book Px) {} where
  sound := Sound.empty ops []
  summed := RefBook.Summed.empty
  uncrossed _ _ _ _ h := by cases h
  orders _ := rfl
  noneBetter := TachBook.noneBetter_invariant.book_empty
  attained := TachBook.attained_invariant.book_empty

/-- **The sizes are the same.** -/
theorem Mirrors.size_eq (h : Mirrors ops gone b r) (sd : Side) (px : ℤ) :
    size (r.levels sd) px = b.sz sd px := by
  rw [(h.summed.indexes sd).sized, h.sound.agree, total_of_bind b.orders r.ord h.orders, liveSum,
    cast_total]
  apply total_congr
  intro k ord _
  unfold live contrib
  by_cases hgone : k ∈ gone
  · rw [if_pos (.inl hgone), if_pos hgone]
    rfl
  · rw [if_neg hgone]
    by_cases hzero : ord.displayQty = 0
    · rw [if_pos (.inr hzero), hzero, ite_self]
      rfl
    · rw [if_neg (not_or.mpr ⟨hgone, hzero⟩), Option.elim_some, Ord.weight]
      dsimp only
      split <;> rfl

/-- No level of the reference book reaches `bound`. -/
def Small (r : RefBook) (bound : ℤ) : Prop := ∀ sd : Side, ∀ e ∈ (r.levels sd).entries, e.2 < bound

instance (r : RefBook) (bound : ℤ) : Decidable (Small r bound) :=
  decidable_of_iff ((∀ e ∈ r.bid.entries, e.2 < bound) ∧ ∀ e ∈ r.ask.entries, e.2 < bound)
    ⟨fun h sd => Side.rec h.1 h.2 sd, fun h => ⟨h .buy, h .sel⟩⟩

theorem Mirrors.sumsBelow (h : Mirrors ops gone b r) (hsmall : Small r (2 ^ 31)) :
    TachBook.SumsBelow ops gone b (2 ^ 31) := by
  intro sd px
  have hsize := h.size_eq sd px
  rw [h.sound.agree] at hsize
  rcases hl : (r.levels sd).lookup px with _ | n
  · rw [size, hl, Option.getD_none] at hsize
    omega
  · have hn := hsmall sd ⟨px, n⟩ (AList.mem_lookup_iff.mp hl)
    rw [size_of_lookup hl] at hsize
    dsimp only at hn
    omega

/-! ### What a record finds in the level book -/

theorem lookup_place (sd : Side) (k : ℕ) :
    ((b.dropHeld ops m.orderID).place ops m sd).orders.lookup k = if k = m.orderID then
      some ⟨sd, m.pxd, m.displayQty, m.displayQty_lt⟩ else b.orders.lookup k := by
  split
  next hk => rw [hk]; exact AList.lookup_insert _
  next hk => exact TachBook.place_lookup_of_ne hk

theorem crosses_iff_through {sd : Side} {px qty : ℤ} {x : Ord} :
    Ord.crosses ⟨sd, px, qty⟩ x = true ↔
      x.side = sd.other ∧ TachBook.through sd px x.px = true := by
  unfold Ord.crosses TachBook.through
  cases sd <;> rcases x with ⟨_ | _, _, _⟩ <;> simp [Side.other]

/-- A level that holds a size is cleared by a New exactly when the New goes through it. -/
theorem clears_eq_through (hnone : ∀ sd, (b.side sd).NoneBetter sd)
    (hatt : ∀ sd, (b.side sd).Attained sd) {sd : Side} {px p : ℤ} (hpos : 0 < b.sz sd.other p) :
    b.clears sd px p = TachBook.through sd px p := by
  have hle := (hnone sd.other).le hpos
  have hvalid : (b.side sd.other).best ≠ TachBook.invalid sd.other := by
    intro hinvalid
    have hzero := ((hnone sd.other).invalid_iff (hatt sd.other)).mp hinvalid p
    exact absurd hzero (Nat.pos_iff_ne_zero.mp hpos)
  unfold Book.clears TachBook.through
  cases sd with
  | buy =>
      have hbest : b.ask.best ≤ p := by
        have : -1 * p ≤ -1 * b.ask.best := hle
        omega
      have hsz : 0 < b.ask.getSz p := hpos
      have hne : b.ask.best ≠ TachBook.invalidAsk := hvalid
      simp [hbest, hsz, hne]
  | sel =>
      have hbest : p ≤ b.bid.best := by
        have : 1 * p ≤ 1 * b.bid.best := hle
        omega
      have hsz : 0 < b.bid.getSz p := hpos
      have hne : b.bid.best ≠ TachBook.invalidBid := hvalid
      simp [hbest, hsz, hne]

/-- The level of an order with a size left holds a size. -/
theorem sz_pos_of_live (hI : Sound ops gone b) (hl : b.orders.lookup k = some ord)
    (hlive : k ∉ gone) (hqty : ord.displayQty ≠ 0) : 0 < b.sz ord.side (ops.toPx ord.pxd) := by
  rw [hI.agree, TachBook.liveSum_of_lookup ops gone hl, if_neg hlive, TachBook.contrib_self]
  omega

/-- A record keeps the two books in step when it leaves the same orders. -/
theorem Mirrors.apply_of_orders (h : Mirrors ops gone b r) (hsmall : Small r (2 ^ 31))
    (hlad : TachBook.PricedOnLadder ops m) (hun : TachBook.Undisturbed ops gone b m)
    {pl : Option (Payload Px)} (hb : b.applyMbo ops m = some (b', pl))
    (horders : ∀ k, (r.apply ops ticks m).ord.lookup k =
      (b'.orders.lookup k).bind (live ops (b.removedBy ops m gone) k)) :
    Mirrors ops (b.removedBy ops m gone) b' (r.apply ops ticks m) where
  sound := TachBook.applyMbo_sound h.sound (h.sumsBelow hsmall) hlad hun hb
  summed := (h.summed.apply m).1
  uncrossed := h.uncrossed.apply h.summed m
  orders := horders
  noneBetter := TachBook.noneBetter_invariant.applyMbo h.noneBetter hb
  attained := TachBook.attained_invariant.applyMbo h.attained hb

theorem live_of_mem (hgone : k ∈ gone) (ord : Order Px) : live ops gone k ord = none :=
  if_pos (.inl hgone)

theorem live_of_zero (hzero : ord.displayQty = 0) (gone : List ℕ) (k : ℕ) :
    live ops gone k ord = none := if_pos (.inr hzero)

theorem live_of_notMem (hlive : k ∉ gone) (hqty : ord.displayQty ≠ 0) :
    live ops gone k ord = some ⟨ord.side, ops.toPx ord.pxd, ord.displayQty⟩ :=
  if_neg (not_or.mpr ⟨hlive, hqty⟩)

theorem brings_of_side (haction : m.orderUpdateAction ≠ 2) (hqty : m.displayQty ≠ 0)
    (hpos : ops.pos m.pxd = true) {sd : Side} (hside : getSide m.side = some sd) :
    brings ops ticks m = some ⟨sd, ticks m.pxd, m.displayQty⟩ := by
  unfold brings
  rw [if_neg, hside]
  · rfl
  · rintro (h | h | h)
    · exact haction h
    · exact hqty h
    · exact h hpos

/-- The uncross of the level book takes out the orders that the New crosses. -/
theorem live_uncross (hI : Sound ops gone b) (hnone : ∀ sd, (b.side sd).NoneBetter sd)
    (hatt : ∀ sd, (b.side sd).Attained sd) (hl : b.orders.lookup k = some ord) (sd : Side)
    (px qty : ℤ) : live ops (b.clearedIds ops sd px ++ gone) k ord =
      (live ops gone k ord).filter fun x => !Ord.crosses ⟨sd, px, qty⟩ x := by
  by_cases hmem : k ∈ gone
  · rw [live_of_mem hmem, live_of_mem (List.mem_append_right _ hmem)]
    rfl
  · by_cases hzero : ord.displayQty = 0
    · rw [live_of_zero hzero, live_of_zero hzero]
      rfl
    · rw [live_of_notMem hmem hzero]
      have hpos := sz_pos_of_live hI hl hmem hzero
      have hcleared : k ∈ b.clearedIds ops sd px ↔ Ord.crosses ⟨sd, px, qty⟩
          ⟨ord.side, ops.toPx ord.pxd, ord.displayQty⟩ = true := by
        rw [TachBook.mem_clearedIds hl, crosses_iff_through]
        refine and_congr_right fun hside => ?_
        rw [clears_eq_through hnone hatt (hside ▸ hpos)]
      by_cases hcross : Ord.crosses ⟨sd, px, qty⟩
          ⟨ord.side, ops.toPx ord.pxd, ord.displayQty⟩ = true
      · rw [live_of_mem (List.mem_append_left _ (hcleared.mpr hcross)),
          Option.filter_some_neg (by simpa using hcross)]
      · rw [live_of_notMem _ hzero, Option.filter_some_pos (by simpa using hcross)]
        rw [List.mem_append, not_or]
        exact ⟨fun hin => hcross (hcleared.mp hin), hmem⟩

theorem live_filter_of_ne {oid : ℕ} (hk : k ≠ oid) (ord : Order Px) :
    live ops (gone.filter (· ≠ oid)) k ord = live ops gone k ord := by
  have hmem : k ∈ gone.filter (· ≠ oid) ↔ k ∈ gone := by simp [hk]
  unfold live
  simp only [hmem]

/-- **A New** leaves the same orders: both books put it in the place of the order of its id
    and take out the orders it crosses. -/
theorem Mirrors.orders_new (h : Mirrors ops gone b r) (hsmall : Small r (2 ^ 31))
    (haction : m.orderUpdateAction = 0) (hlad : OnLadder (ops.toPx m.pxd))
    (hticks : ticks m.pxd = ops.toPx m.pxd) (hqty : m.displayQty ≠ 0)
    (hpos : ops.pos m.pxd = true) (hun : TachBook.Undisturbed ops gone b m)
    {pl : Option (Payload Px)} (hb : b.add ops m = some (b', pl)) (k : ℕ) :
    (r.apply ops ticks m).ord.lookup k =
      (b'.orders.lookup k).bind (live ops (b.removedBy ops m gone) k) := by
  obtain ⟨sd, hside, hlt, rfl⟩ := TachBook.add_cases hb
  have hbrings : brings ops ticks m = some ⟨sd, ops.toPx m.pxd, m.displayQty⟩ := by
    rw [brings_of_side (by omega) hqty hpos hside, hticks]
  obtain ⟨-, hlookup⟩ : (r.apply ops ticks m).Summed ∧ _ := h.summed.apply m
  have hplaced := TachBook.place_sound h.sound (h.sumsBelow hsmall) hlad hun haction hlt sd
  have hnone : ∀ sd', (((b.dropHeld ops m.orderID).place ops m sd).side sd').NoneBetter sd' :=
    TachBook.noneBetter_invariant.place
      (TachBook.noneBetter_invariant.dropHeld h.noneBetter m.orderID) m sd
  have hatt : ∀ sd', (((b.dropHeld ops m.orderID).place ops m sd).side sd').Attained sd' :=
    TachBook.attained_invariant.place
      (TachBook.attained_invariant.dropHeld h.attained m.orderID) m sd
  have hgone : b.removedBy ops m gone =
      ((b.dropHeld ops m.orderID).place ops m sd).clearedIds ops sd (ops.toPx m.pxd) ++
        gone.filter (· ≠ m.orderID) := by
    unfold Book.removedBy
    rw [if_pos haction, hside]
  rw [hlookup, TachBook.orders_uncross, hgone]
  rcases hl : ((b.dropHeld ops m.orderID).place ops m sd).orders.lookup k with _ | ord
  · have hl' := hl
    rw [lookup_place] at hl'
    split at hl'
    · cases hl'
    next hk => rw [if_neg hk, h.orders, hl']; rfl
  · rw [Option.bind_some, live_uncross hplaced hnone hatt hl sd _ m.displayQty]
    have hl' := hl
    rw [lookup_place] at hl'
    split at hl'
    next hk =>
      cases hl'
      rw [if_pos hk, hbrings, live_of_notMem _ hqty, Option.filter_some_pos]
      · rw [Ord.crosses_of_side rfl, Bool.not_false]
      · rw [hk]
        simp
    next hk =>
      rw [if_neg hk, h.orders, hl', Option.bind_some, live_filter_of_ne hk]
      unfold survives
      rw [hbrings]
      rfl

/-- An order the reference book holds is one of the level book. -/
theorem Mirrors.held (h : Mirrors ops gone b r) {o : Ord} (hl : r.ord.lookup k = some o) :
    ∃ ord, b.orders.lookup k = some ord ∧ k ∉ gone ∧ ord.displayQty ≠ 0 ∧
      o = ⟨ord.side, ops.toPx ord.pxd, ord.displayQty⟩ := by
  rw [h.orders] at hl
  obtain ⟨ord, hord, hlive⟩ := Option.bind_eq_some_iff.mp hl
  unfold live at hlive
  split at hlive
  · cases hlive
  next hnot =>
    obtain ⟨hmem, hqty⟩ := not_or.mp hnot
    exact ⟨ord, hord, hmem, hqty, (Option.some.inj hlive).symm⟩

/-- The order a Change leaves in the map: its side stays, its price is one of the two. -/
theorem lookup_canc (hl : b.orders.lookup m.orderID = some ord) {pl : Option (Payload Px)}
    (hb : b.canc ops m = some (b', pl)) (hprice : m.displayQty = 0 ∨ ops.pos m.pxd = true)
    (hsame : ops.eq m.pxd ord.pxd = true → ops.toPx m.pxd = ops.toPx ord.pxd) :
    ∃ px, (m.displayQty ≠ 0 → ops.toPx px = ops.toPx m.pxd) ∧
      b'.orders = b.orders.insert m.orderID ⟨ord.side, px, m.displayQty, m.displayQty_lt⟩ := by
  obtain ⟨-, ⟨-, heq, -, rfl⟩ | ⟨-, -, rfl⟩ | ⟨-, heq, rfl⟩⟩ := TachBook.canc_cases hl hb
  · exact ⟨ord.pxd, fun _ => (hsame heq).symm, rfl⟩
  · exact ⟨m.pxd, fun _ => rfl, rfl⟩
  · exact ⟨ord.pxd, fun hqty => (hsame (heq (hprice.resolve_left hqty))).symm, rfl⟩

/-- **A Change** of an order that is held leaves the same orders when it does not cross. -/
theorem Mirrors.orders_change (h : Mirrors ops gone b r) (haction : m.orderUpdateAction = 1)
    (hticks : ticks m.pxd = ops.toPx m.pxd) {o : Ord} (hheld : r.ord.lookup m.orderID = some o)
    (hside : getSide m.side = some o.side) (hprice : m.displayQty = 0 ∨ ops.pos m.pxd = true)
    (hcross : ∀ x, brings ops ticks m = some x → (r.drop m.orderID).crossed x = false)
    (hsame : ∀ ord, b.orders.lookup m.orderID = some ord →
      ops.eq m.pxd ord.pxd = true → ops.toPx m.pxd = ops.toPx ord.pxd)
    {pl : Option (Payload Px)} (hb : b.canc ops m = some (b', pl)) (k : ℕ) :
    (r.apply ops ticks m).ord.lookup k = (b'.orders.lookup k).bind (live ops gone k) := by
  obtain ⟨ord, hord, hmem, -, rfl⟩ := h.held hheld
  obtain ⟨px, hpx, horders⟩ := lookup_canc hord hb hprice (hsame ord hord)
  obtain ⟨-, hlookup⟩ : (r.apply ops ticks m).Summed ∧ _ := h.summed.apply m
  rw [hlookup, horders]
  split
  next hk =>
    rw [hk, AList.lookup_insert, Option.bind_some]
    by_cases hzero : m.displayQty = 0
    · rw [live_of_zero hzero]
      exact if_pos (.inr (.inl hzero))
    · rw [live_of_notMem hmem hzero, hpx hzero,
        brings_of_side (by omega) hzero (hprice.resolve_left hzero) hside, hticks]
  next hk =>
    rw [AList.lookup_insert_ne hk, ← h.orders]
    rcases hl : r.ord.lookup k with _ | x
    · rfl
    · rw [Option.filter_some_pos]
      unfold survives
      rcases hbrings : brings ops ticks m with _ | y
      · rfl
      · have hdrop : (r.drop m.orderID).ord.lookup k = some x := by
          rw [lookup_drop, if_neg hk, hl]
        rcases hyx : y.crosses x with _ | _
        · rw [Option.all_some, hyx]
          rfl
        · have := (h.summed.drop m.orderID).crossed_of_crosses hdrop hyx
          rw [hcross y hbrings] at this
          cases this

/-- **A Delete** leaves the same orders. -/
theorem Mirrors.orders_delete (h : Mirrors ops gone b r) (haction : m.orderUpdateAction = 2)
    {pl : Option (Payload Px)} (hb : b.cancd ops m = some (b', pl)) (k : ℕ) :
    (r.apply ops ticks m).ord.lookup k = (b'.orders.lookup k).bind (live ops gone k) := by
  have hbrings : brings ops ticks m = none := if_pos (.inl haction)
  have hkept : ∀ k, k ≠ m.orderID → b'.orders.lookup k = b.orders.lookup k := by
    intro k hk
    rcases hl : b.orders.lookup m.orderID with _ | ord
    · unfold Book.cancd at hb
      rw [hl] at hb
      cases hb
      rfl
    · rw [TachBook.cancd_cases hl hb]
      exact AList.lookup_erase_ne hk
  have hgone : b'.orders.lookup m.orderID = none := by
    rcases hl : b.orders.lookup m.orderID with _ | ord
    · unfold Book.cancd at hb
      rw [hl] at hb
      cases hb
      exact hl
    · rw [TachBook.cancd_cases hl hb]
      exact AList.lookup_erase _ _
  obtain ⟨-, hlookup⟩ : (r.apply ops ticks m).Summed ∧ _ := h.summed.apply m
  rw [hlookup]
  split
  next hk => rw [hk, hgone, hbrings]; rfl
  next hk =>
    rw [hkept k hk, ← h.orders]
    unfold survives
    rw [hbrings]
    cases r.ord.lookup k <;> rfl

/-! ### Regular records -/

/-- A Change the two books take the same way: of an order of the market and on its side, to
    no size or a price, and to a price that does not cross.  Prices the level book takes for
    equal are on one tick. -/
def RegularChange (ops : PriceOps Px) (ticks : Px → ℤ) (b : Book Px) (r : RefBook) (m : Mbo Px) :
    Prop :=
  (∃ o ∈ r.ord.lookup m.orderID, getSide m.side = some o.side) ∧
  (m.displayQty = 0 ∨ ops.pos m.pxd = true) ∧
  (∀ x ∈ brings ops ticks m, (r.drop m.orderID).crossed x = false) ∧
  ∀ ord ∈ b.orders.lookup m.orderID,
    ops.eq m.pxd ord.pxd = true → ops.toPx m.pxd = ops.toPx ord.pxd

/-- A record the two books take the same way: priced on the ladder and at one tick for both,
    and about no order that only the level book still holds, unless the level of that order
    is empty. -/
def Regular (ops : PriceOps Px) (ticks : Px → ℤ) (b : Book Px) (r : RefBook) (m : Mbo Px) : Prop :=
  m.orderUpdateAction ≤ 2 ∧
  (m.orderUpdateAction ≠ 2 → OnLadder (ops.toPx m.pxd) ∧ ticks m.pxd = ops.toPx m.pxd) ∧
  (m.orderUpdateAction = 0 → m.displayQty ≠ 0 ∧ ops.pos m.pxd = true) ∧
  (m.orderUpdateAction = 1 → RegularChange ops ticks b r m) ∧
  (r.ord.lookup m.orderID = none → ∀ ord ∈ b.orders.lookup m.orderID,
    b.sz ord.side (ops.toPx ord.pxd) = 0 ∨ ord.displayQty = 0)

instance (ops : PriceOps Px) (ticks : Px → ℤ) (b : Book Px) (r : RefBook) (m : Mbo Px) :
    Decidable (RegularChange ops ticks b r m) := inferInstanceAs (Decidable (_ ∧ _))

instance (ops : PriceOps Px) (ticks : Px → ℤ) (b : Book Px) (r : RefBook) (m : Mbo Px) :
    Decidable (Regular ops ticks b r m) := inferInstanceAs (Decidable (_ ∧ _))

theorem Mirrors.undisturbed (h : Mirrors ops gone b r) (hm : Regular ops ticks b r m) :
    TachBook.Undisturbed ops gone b m := by
  obtain ⟨-, -, -, hchange, hstale⟩ := hm
  unfold TachBook.Undisturbed
  rcases hord : b.orders.lookup m.orderID with _ | ord
  · trivial
  · intro hmem
    have hnone : r.ord.lookup m.orderID = none := by
      rw [h.orders, hord, Option.bind_some, live_of_mem hmem]
    refine ⟨fun _ => hstale hnone ord hord, fun haction => ?_⟩
    obtain ⟨⟨o, ho, -⟩, -⟩ := hchange haction
    rw [hnone] at ho
    cases ho

/-- **A regular record** keeps the two books the same market. -/
theorem Mirrors.apply (h : Mirrors ops gone b r) (hsmall : Small r (2 ^ 31))
    (hm : Regular ops ticks b r m) {pl : Option (Payload Px)}
    (hb : b.applyMbo ops m = some (b', pl)) :
    Mirrors ops (b.removedBy ops m gone) b' (r.apply ops ticks m) := by
  have hun := h.undisturbed hm
  obtain ⟨haction, hprice, hnew, hchange, -⟩ := hm
  have hlad : TachBook.PricedOnLadder ops m := fun hact => (hprice (by omega)).1
  refine h.apply_of_orders hsmall hlad hun hb fun k => ?_
  unfold Book.applyMbo at hb
  split at hb
  next hact =>
    obtain ⟨hqty, hpos⟩ := hnew hact
    exact h.orders_new hsmall hact (hlad (.inl hact)) (hprice (by omega)).2 hqty hpos hun hb k
  next hnot =>
    have hgone : b.removedBy ops m gone = gone := if_neg hnot
    rw [hgone]
    split at hb
    next hact =>
      obtain ⟨⟨o, ho, hside⟩, hzero, hcross, hsame⟩ := hchange hact
      exact h.orders_change hact (hprice (by omega)).2 ho hside hzero hcross hsame hb k
    next hnot' =>
      rw [if_pos (by omega)] at hb
      exact h.orders_delete (by omega) hb k

/-! ### The best of either side -/

theorem Mirrors.mem_prices (h : Mirrors ops gone b r) {sd : Side} {p : ℤ} :
    p ∈ r.prices sd ↔ 0 < b.sz sd p := by
  rw [← h.summed.mem_keys_iff, ← AList.mem_keys, ← AList.lookup_isSome, Option.isSome_iff_exists]
  have hsize := h.size_eq sd p
  constructor
  · rintro ⟨n, hn⟩
    have hpos := (h.summed.indexes sd).positive p n hn
    rw [size_of_lookup hn] at hsize
    omega
  · intro hpos
    exact ⟨_, (h.summed.indexes sd).lookup_iff.mpr ⟨rfl, by omega⟩⟩

/-- A valid best is the best price of its side. -/
theorem Mirrors.best_iff (h : Mirrors ops gone b r) {sd : Side} {p : ℤ} :
    (p ∈ r.prices sd ∧ ∀ q ∈ r.prices sd, sd.sign * q ≤ sd.sign * p) ↔
      (b.side sd).best = p ∧ p ≠ TachBook.invalid sd := by
  constructor
  · rintro ⟨hp, hall⟩
    have hpos := h.mem_prices.mp hp
    have hvalid : (b.side sd).best ≠ TachBook.invalid sd := fun hinvalid =>
      absurd (((h.noneBetter sd).invalid_iff (h.attained sd)).mp hinvalid p)
        (Nat.pos_iff_ne_zero.mp hpos)
    have hbest := (h.attained sd).resolve_left hvalid
    have hle := hall _ (h.mem_prices.mpr hbest)
    have hge := (h.noneBetter sd).le hpos
    have heq : (b.side sd).best = p := by
      cases sd
      · rw [Side.sign_buy] at hle hge
        omega
      · rw [Side.sign_sel] at hle hge
        omega
    exact ⟨heq, heq ▸ hvalid⟩
  · rintro ⟨rfl, hvalid⟩
    refine ⟨h.mem_prices.mpr ((h.attained sd).resolve_left hvalid), fun q hq => ?_⟩
    exact (h.noneBetter sd).le (h.mem_prices.mp hq)

/-- **The top of the reference market** is the two bests of the level book. -/
theorem Mirrors.top_iff (h : Mirrors ops gone b r) {bid bidSz ask askSz : ℤ} :
    r.top = some (bid, bidSz, ask, askSz) ↔
      (b.bid.best = bid ∧ bid ≠ TachBook.invalidBid) ∧
      (b.ask.best = ask ∧ ask ≠ TachBook.invalidAsk) ∧
      bidSz = b.bid.getSz bid ∧ askSz = b.ask.getSz ask := by
  have hbid : IsGreatest (r.prices .buy) bid ↔ b.bid.best = bid ∧ bid ≠ TachBook.invalidBid := by
    refine Iff.trans (and_congr_right fun _ => ?_) h.best_iff
    refine forall₂_congr fun q _ => ?_
    rw [Side.sign_buy]
    omega
  have hask : IsLeast (r.prices .sel) ask ↔ b.ask.best = ask ∧ ask ≠ TachBook.invalidAsk := by
    refine Iff.trans (and_congr_right fun _ => ?_) h.best_iff
    refine forall₂_congr fun q _ => ?_
    rw [Side.sign_sel]
    omega
  rw [top_eq_some h.summed h.uncrossed, hbid, hask]
  have hsize₁ : size r.bid bid = b.bid.getSz bid := h.size_eq .buy bid
  have hsize₂ : size r.ask ask = b.ask.getSz ask := h.size_eq .sel ask
  rw [hsize₁, hsize₂]

end Mirrors

/-! ### Runs -/

section Runs

variable {ops : PriceOps Px} {ticks : Px → ℤ} {args : Args}

/-- The book records that are applied meet `P`, with the two books before the record. -/
def Args.Applied (args : Args) (P : Book Px → RefBook → Mbo Px → Prop) (s : Comparison Px) :
    L3 Px → Prop
  | .mbo m => s.left = false → m.securityID = args.want → args.past m = false →
      P s.tb.toBook s.ref m
  | _ => True

instance (P : Book Px → RefBook → Mbo Px → Prop) [∀ b r m, Decidable (P b r m)]
    (s : Comparison Px) (l3 : L3 Px) : Decidable (args.Applied P s l3) := by
  unfold Args.Applied
  split <;> infer_instance

/-- What holds between records: the books are one market, and the level book reads the
    records of the instrument. -/
structure Args.Agreed (args : Args) (ops : PriceOps Px) (s : Comparison Px) : Prop where
  mirrors : ∃ gone, Mirrors ops gone s.tb.toBook s.ref
  reads : ∀ m : Mbo Px, m.securityID = args.want → s.tb.Reads args.asset m

theorem Args.agreed_start (args : Args) (ops : PriceOps Px) :
    args.Agreed ops ({} : Comparison Px) where
  mirrors := ⟨[], Mirrors.empty ops⟩
  reads m hm := by
    refine ⟨rfl, hm.trans ?_⟩
    show args.want = if args.want != 0 then args.want else 0
    by_cases hzero : args.want = 0
    · rw [hzero]
      rfl
    · rw [if_pos (by simpa using hzero)]

theorem emit_books (s : Comparison Px) (time : ℕ) :
    (args.emit s time).1.tb = s.tb ∧ (args.emit s time).1.ref = s.ref := by
  unfold Args.emit
  split
  · exact ⟨rfl, rfl⟩
  · split <;> exact ⟨rfl, rfl⟩

theorem Args.Agreed.step {s s' : Comparison Px} {l3 : L3 Px} {out : List (Output Px)}
    (h : args.Agreed ops s) (hsmall : Small s.ref (2 ^ 31))
    (hrec : args.Applied (Regular ops ticks) s l3)
    (hs : args.step ops ticks s l3 = some (s', out)) : args.Agreed ops s' := by
  obtain ⟨⟨gone, hmirrors⟩, hreads⟩ := h
  cases l3 with
  | mbo m =>
      unfold Args.step Args.onMbo at hs
      dsimp only at hs
      split at hs
      · cases hs
        exact ⟨⟨gone, hmirrors⟩, hreads⟩
      next hours =>
        obtain ⟨hleft, hwant⟩ := not_or.mp hours
        split at hs
        · cases hs
          exact ⟨⟨gone, hmirrors⟩, hreads⟩
        next hpast =>
          obtain ⟨⟨tb, o⟩, htb, hs⟩ := Option.map_eq_some_iff.mp hs
          have hm := hrec (by simpa using hleft) (not_not.mp hwant) (by simpa using hpast)
          have hread := hreads m (not_not.mp hwant)
          have hdata : s.tb.dataHandler ops args.asset (.mbo m) = some (tb, o) := htb
          cases hs
          refine ⟨?_, fun m' hm' => ?_⟩
          · rcases TachBook.step_book htb with ⟨a, m₁, pl, heq, -, hb⟩ | ⟨-, a, heq⟩ | ⟨-, hother⟩
            · cases heq
              rw [(emit_books _ _).1, (emit_books _ _).2]
              exact ⟨_, hmirrors.apply hsmall hm hb⟩
            · cases heq
            · exact absurd hread (hother _ _ rfl)
          · rw [(emit_books _ _).1]
            exact (TachBook.dataHandler_reads hdata m').mpr (hreads m' hm')
  | mboTrd t =>
      unfold Args.step Args.onTrd at hs
      dsimp only at hs
      split at hs
      · cases hs
        exact ⟨⟨gone, hmirrors⟩, hreads⟩
      · obtain ⟨⟨tb, o⟩, htb, hs⟩ := Option.map_eq_some_iff.mp hs
        have hdata : s.tb.dataHandler ops args.asset (.mboTrd t) = some (tb, o) := htb
        cases hs
        refine ⟨?_, fun m' hm' => (TachBook.dataHandler_reads hdata m').mpr (hreads m' hm')⟩
        rcases TachBook.step_book htb with ⟨a, m₁, pl, heq, -⟩ | ⟨-, a, heq⟩ | ⟨hsame, -⟩
        · cases heq
        · cases heq
        · exact ⟨gone, hsame ▸ hmirrors⟩
  | _ =>
      cases hs
      exact ⟨⟨gone, hmirrors⟩, hreads⟩

/-- **The level book is the reference market.**  In every run of the tool whose book records
    are regular and whose levels stay below `2 ^ 31`, every level of the level book has the
    size of the reference book, and the top of the reference market is there exactly when
    the level book has a best on either side, and is these with their sizes. -/
theorem books_agree {s : Comparison Px} {es : List (L3 Px)} {out : List (Output Px)}
    (hrun : run (args.step ops ticks) {} es = some (s, out))
    (hrec : AllSteps (args.step ops ticks) (fun s l3 =>
      args.Applied (Regular ops ticks) s l3 ∧ Small s.ref (2 ^ 31)) {} es) :
    (∀ sd px, size (s.ref.levels sd) px = (s.tb.side sd).getSz px) ∧
      ∀ bid bidSz ask askSz, s.ref.top = some (bid, bidSz, ask, askSz) ↔
        (s.tb.bid.best = bid ∧ bid ≠ TachBook.invalidBid) ∧
        (s.tb.ask.best = ask ∧ ask ≠ TachBook.invalidAsk) ∧
        bidSz = s.tb.bid.getSz bid ∧ askSz = s.tb.ask.getSz ask := by
  have hagreed : args.Agreed ops s := by
    refine run_induction (I := fun _ _ s => args.Agreed ops s) (args.agreed_start ops) ?_ hrec hrun
    intro _ _ s l3 s' o hI ⟨hm, hsmall⟩ hs
    exact hI.step hsmall hm hs
  obtain ⟨gone, hmirrors⟩ := hagreed.mirrors
  exact ⟨hmirrors.size_eq, fun bid bidSz ask askSz => hmirrors.top_iff⟩

/-- A live book record of instrument 1. -/
def bookRecord (action oid : ℕ) (side : Char) (px : ℤ) (qty : ℕ) : L3 ℤ :=
  .mbo
    { venue := 1, transactTime := 1, sendingTime := 1, orderUpdateAction := action
      securityID := 1, orderID := oid, pxd := px, displayQty := qty % 2 ^ 32
      displayQty_lt := TachBook.mod_lt_2_32 qty, side := side, endOfEvent := true
      recovery := false }

/-- Two bids and an offer; an offer takes out the higher bid, whose Delete comes late; the
    other bid is moved up, and its order trades. -/
def session : List (L3 ℤ) :=
  [bookRecord 0 1 '0' 23 100, bookRecord 0 2 '0' 21 50, bookRecord 0 3 '1' 24 7,
    bookRecord 0 4 '1' 22 10, bookRecord 2 1 '0' 23 100, bookRecord 1 2 '0' 20 60,
    .mboTrd ⟨1, 1, 1, 5, 2, true⟩, bookRecord 1 2 '0' 20 0]

theorem session_agrees : ∃ s out,
    run (Args.step ⟨1, 0, 10⟩ tickOps id) {} session = some (s, out) ∧
      size (s.ref.levels .sel) 22 = (s.tb.side .sel).getSz 22 := by
  obtain ⟨⟨s, out⟩, hrun⟩ := Option.isSome_iff_exists.mp (by decide +kernel :
    (run (Args.step ⟨1, 0, 10⟩ tickOps id) {} session).isSome = true)
  exact ⟨s, out, hrun, (books_agree hrun (by decide +kernel)).1 .sel 22⟩

end Runs

end KasparHft.Obcmp
