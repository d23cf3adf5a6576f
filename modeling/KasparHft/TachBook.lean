import KasparHft.AssocMap
import KasparHft.FillSlate
import KasparHft.MarketData
import Mathlib.Logic.Function.Basic

/-!
# The level book

`frame/ob/act/TachBook.hpp`: a book of level sizes.  Each side keeps an array of sizes and
its best level; a map keeps the orders, so that a Change or a Delete finds the side, the
price and the size it is about.  A New that crosses zeroes the contra levels it crosses
(the uncross) and leaves their orders in the map.

`none` is an abort: a failed assertion, `ERR` or `SNGH`.  Logging, counters, the `sym` every
message carries and time stamps that are only passed on are left out; the lists of
subscribers are replaced by one output for each list.
-/

namespace KasparHft.TachBook

open AssocMap FillSlate

/-- `ARRAY_SIZE`, the depth of the ladder. -/
def arraySize : ℤ := 262144

/-- `INVALID_BID` and `INVALID_ASK`, the best of an empty side. -/
def invalidBid : ℤ := -1
def invalidAsk : ℤ := arraySize

/-! ### One side -/

/-- `OrderBookSide`; the template argument `SIDE` is an argument of its functions. -/
structure OrderBookSide where
  levels : ℤ → ℕ
  best : ℤ

/-- The best of an empty side. -/
def invalid : Side → ℤ
  | .buy => invalidBid
  | .sel => invalidAsk

/-- The constructor and `clear`. -/
def OrderBookSide.empty (sd : Side) : OrderBookSide := ⟨fun _ => 0, invalid sd⟩

/-- The search down of `update_best_after_zero`: the highest non-empty level below `n`. -/
def scanDown (levels : ℤ → ℕ) : ℕ → ℤ
  | 0 => invalidBid
  | n + 1 => if 0 < levels n then n else scanDown levels n

/-- The search up: the lowest non-empty one of the last `n` levels. -/
def scanUp (levels : ℤ → ℕ) : ℕ → ℤ
  | 0 => invalidAsk
  | n + 1 =>
      if 0 < levels (arraySize - (n + 1 : ℕ)) then arraySize - (n + 1 : ℕ) else scanUp levels n

/-- `update_best_after_zero`. -/
def OrderBookSide.updateBestAfterZero (sd : Side) (b : OrderBookSide) (px : ℤ) :
    OrderBookSide :=
  match sd with
  | .buy => { b with best := scanDown b.levels px.toNat }
  | .sel => { b with best := scanUp b.levels (arraySize - 1 - px).toNat }

/-- The comparison with `best`: higher is better for a bid, lower for an ask. -/
def better : Side → ℤ → ℤ → Bool
  | .buy, px, best => best < px
  | .sel, px, best => px < best

/-- `px` is an index of the level array. -/
def OnLadder (px : ℤ) : Prop := 0 ≤ px ∧ px < arraySize

instance (px : ℤ) : Decidable (OnLadder px) := inferInstanceAs (Decidable (_ ∧ _))

/-- The size `update_sz` gives a level.  Sizes are unsigned 32-bit; taking off the whole
    level or more leaves zero. -/
def newSz (level : ℕ) (delta : ℤ) : ℕ :=
  if delta < 0 ∧ level ≤ delta.natAbs then 0 else ((level + delta) % 2 ^ 32).toNat

/-- `update_sz`. -/
def OrderBookSide.updateSz (sd : Side) (b : OrderBookSide) (px delta : ℤ) : OrderBookSide :=
  if ¬ OnLadder px then b
  else
    let sz := newSz (b.levels px) delta
    let b₁ := { b with levels := Function.update b.levels px sz }
    if sz = 0 then
      if px = b.best then b₁.updateBestAfterZero sd px else b₁
    else if better sd px b.best then { b₁ with best := px }
    else b₁

/-- `get_sz`. -/
def OrderBookSide.getSz (b : OrderBookSide) (px : ℤ) : ℕ :=
  if OnLadder px then b.levels px else 0

/-- `clear_at_px`; its callers pass a level that is not empty, so an index of the array. -/
def OrderBookSide.clearAtPx (sd : Side) (b : OrderBookSide) (px : ℤ) : OrderBookSide :=
  if b.levels px = 0 then b
  else
    let b₁ := { b with levels := Function.update b.levels px 0 }
    if px = b.best then b₁.updateBestAfterZero sd px else b₁

/-- The loop of the uncross: `n` levels from `px` up. -/
def OrderBookSide.clearFrom (sd : Side) (b : OrderBookSide) (px : ℤ) : ℕ → OrderBookSide
  | 0 => b
  | n + 1 => (if 0 < b.getSz px then b.clearAtPx sd px else b).clearFrom sd (px + 1) n

/-! ### The book -/

/-- What the orders map keeps of the record that brought an order, as later records read
    it; the side has been through `get_side`. -/
structure Order (Px : Type) where
  side : Side
  pxd : Px
  displayQty : ℕ
  displayQty_lt : displayQty < 2 ^ 32

/-- The members a book record acts on. -/
structure Book (Px : Type) where
  bid : OrderBookSide := .empty .buy
  ask : OrderBookSide := .empty .sel
  orders : Map ℕ (Order Px) := ∅

variable {Px : Type}

/-- `bid` or `ask`. -/
def Book.side (b : Book Px) : Side → OrderBookSide
  | .buy => b.bid
  | .sel => b.ask

def Book.setSide (b : Book Px) (sd : Side) (o : OrderBookSide) : Book Px :=
  match sd with
  | .buy => { b with bid := o }
  | .sel => { b with ask := o }

/-- `bid.update_sz` or `ask.update_sz`. -/
def Book.updateSz (b : Book Px) (sd : Side) (px delta : ℤ) : Book Px :=
  b.setSide sd ((b.side sd).updateSz sd px delta)

/-- The uncross of a New on side `sd` at `px`: the contra levels from the best one to
    `px`. -/
def Book.uncross (b : Book Px) (sd : Side) (px : ℤ) : Book Px :=
  match sd with
  | .buy =>
      if b.ask.best ≠ invalidAsk ∧ b.ask.best ≤ px then
        { b with ask := b.ask.clearFrom .sel b.ask.best (px - b.ask.best + 1).toNat }
      else b
  | .sel =>
      if b.bid.best ≠ invalidBid ∧ px ≤ b.bid.best then
        { b with bid := b.bid.clearFrom .buy px (b.bid.best - px + 1).toNat }
      else b

/-- The payload of a book record. -/
def mboPayload (m : Mbo Px) (sd : Side) (mev : Md) (action : Mt) (sz dispSz : ℤ) (px : Px) :
    Payload Px :=
  { side := sd, exOrderId := m.orderID, orderRef := ⟨0, 0⟩, mev := mev, action := action
    sz := sz, dispSz := dispSz, px := px, tim := m.transactTime, sendTim := m.sendingTime
    mkt := m.venue, eoe := m.endOfEvent, recovery := m.recovery }

/-- An order already held is taken off its level and out of the map. -/
def Book.dropHeld (ops : PriceOps Px) (b : Book Px) (oid : ℕ) : Book Px :=
  match b.orders.lookup oid with
  | none => b
  | some ex =>
      { b.updateSz ex.side (ops.toPx ex.pxd) (-toInt32 ex.displayQty) with
        orders := b.orders.erase oid }

/-- The new order goes into the map and onto its level. -/
def Book.place (ops : PriceOps Px) (b : Book Px) (m : Mbo Px) (sd : Side) : Book Px :=
  { b.updateSz sd (ops.toPx m.pxd) (toInt32 m.displayQty) with
    orders := b.orders.insert m.orderID ⟨sd, m.pxd, m.displayQty, m.displayQty_lt⟩ }

/-- The ADD branch of `data_handler`.  The second component is the payload to publish. -/
def Book.add (ops : PriceOps Px) (b : Book Px) (m : Mbo Px) :
    Option (Book Px × Option (Payload Px)) :=
  match getSide m.side with
  | none => none
  | some sd =>
      let b := ((b.dropHeld ops m.orderID).place ops m sd).uncross sd (ops.toPx m.pxd)
      (makePayload ops (mboPayload m sd .add .none (toInt32 m.displayQty)
        (toInt32 m.displayQty) m.pxd)).map fun pl => (b, some pl)

/-- Take `off` from the level of `ord`, put `on` at the level of the record, and write the
    order back with the record's price and size. -/
def Book.moveTo (ops : PriceOps Px) (b : Book Px) (m : Mbo Px) (ord : Order Px) (off on : ℕ) :
    Book Px :=
  { (b.updateSz ord.side (ops.toPx ord.pxd) (-toInt32 off)).updateSz ord.side
      (ops.toPx m.pxd) (toInt32 on) with
    orders := b.orders.insert m.orderID ⟨ord.side, m.pxd, m.displayQty, m.displayQty_lt⟩ }

/-- The order stays at its price: `delta` goes to its level, the size is written back. -/
def Book.resize (ops : PriceOps Px) (b : Book Px) (m : Mbo Px) (ord : Order Px) (delta : ℤ) :
    Book Px :=
  { b.updateSz ord.side (ops.toPx ord.pxd) delta with
    orders := b.orders.insert m.orderID ⟨ord.side, ord.pxd, m.displayQty, m.displayQty_lt⟩ }

/-- The cancel-replace branches of a Change. -/
def Book.cancReplace (ops : PriceOps Px) (b : Book Px) (m : Mbo Px) (ord : Order Px) :
    Option (Book Px) :=
  if ord.displayQty < m.displayQty ∧ ops.eq m.pxd ord.pxd then
    -- just increase the size
    let szDelta := toInt32 (m.displayQty - ord.displayQty)
    if 0 < szDelta then some (b.resize ops m ord szDelta) else none
  else if m.displayQty = ord.displayQty ∧ ¬ ops.eq m.pxd ord.pxd then
    match ord.side with
    | .buy =>
        let left := b.updateSz .buy (ops.toPx ord.pxd) (-toInt32 ord.displayQty)
        if left.bid.getSz (ops.toPx ord.pxd) < 1000000 then
          some (b.moveTo ops m ord ord.displayQty m.displayQty)
        else none
    | .sel => some (b.moveTo ops m ord m.displayQty m.displayQty)
  else if ord.displayQty < m.displayQty ∧ ¬ ops.eq m.pxd ord.pxd then
    -- both change
    if 0 < toInt32 (m.displayQty - ord.displayQty) then
      some (b.moveTo ops m ord ord.displayQty m.displayQty)
    else none
  else if m.displayQty < ord.displayQty ∧ ¬ ops.eq m.pxd ord.pxd then
    some (b.moveTo ops m ord ord.displayQty m.displayQty)
  else none

/-- The CANC branch: a Change of a held order. -/
def Book.canc (ops : PriceOps Px) (b : Book Px) (m : Mbo Px) :
    Option (Book Px × Option (Payload Px)) :=
  match b.orders.lookup m.orderID with
  | none => some (b, none)
  | some ord =>
      let b' : Option (Book Px) :=
        if ord.displayQty < m.displayQty ∨ (ops.pos m.pxd ∧ ¬ ops.eq m.pxd ord.pxd) then
          b.cancReplace ops m ord
        else
          -- regular cancel
          some (b.resize ops m ord (-(toInt32 ord.displayQty - toInt32 m.displayQty)))
      b'.bind fun b' =>
        match b'.orders.lookup m.orderID with
        | none => none
        | some ord =>
            (makePayload ops (mboPayload m ord.side .mod .canc 0 (toInt32 m.displayQty)
              ord.pxd)).map fun pl => (b', some pl)

/-- The CANCD branch: a Delete of a held order. -/
def Book.cancd (ops : PriceOps Px) (b : Book Px) (m : Mbo Px) :
    Option (Book Px × Option (Payload Px)) :=
  match b.orders.lookup m.orderID with
  | none => some (b, none)
  | some ord =>
      let px := ops.toPx ord.pxd
      if ¬ OnLadder px then some ({ b with orders := b.orders.erase m.orderID }, none)
      else
        let b' := b.updateSz ord.side px (-toInt32 ord.displayQty)
        if (b'.side ord.side).getSz px < 10000000 then
          (makePayload ops (mboPayload m ord.side .mod .cancd 0 0 ord.pxd)).map fun pl =>
            ({ b' with orders := b.orders.erase m.orderID }, some pl)
        else none

/-- A book record (0 New, 1 Change, 2 Delete; others are logged). -/
def Book.applyMbo (ops : PriceOps Px) (b : Book Px) (m : Mbo Px) :
    Option (Book Px × Option (Payload Px)) :=
  if m.orderUpdateAction = 0 then b.add ops m
  else if m.orderUpdateAction = 1 then b.canc ops m
  else if m.orderUpdateAction = 2 then b.cancd ops m
  else some (b, none)

/-! ### Publishing -/

/-- `create_point`. -/
def Book.createPoint (b : Book Px) : Point :=
  if b.ask.best = invalidAsk ∨ b.bid.best = invalidBid then
    let zeros := List.replicate nLevels 0
    ⟨zeros, zeros, zeros, zeros, true⟩
  else
    let bids := (List.range nLevels).map fun i : ℕ => b.bid.best - i
    let asks := (List.range nLevels).map fun i : ℕ => b.ask.best + i
    let bidSz := toInt32 (b.bid.getSz b.bid.best)
    let askSz := toInt32 (b.ask.getSz b.ask.best)
    { bidPx := bids
      askPx := asks
      bidSz := bids.map fun px => toInt32 (b.bid.getSz px)
      askSz := asks.map fun px => toInt32 (b.ask.getSz px)
      baddata := b.ask.best ≤ b.bid.best || b.bid.best ≤ 10 || invalidAsk - 10 ≤ b.ask.best ||
        bidSz == 0 || askSz == 0 || b.bid.best == 0 || b.ask.best == 0 }

/-- What the book sends, one output for each list of subscribers. -/
inductive Out (Px : Type) where
  | tradeNotify (pl : Payload Px)
  | endOfBurst (pl : Payload Px) (pt : Point)
  | endOfBurst2 (txtim : ℕ) (bb ba bs as : ℤ) (mev : Md) (action : Mt) (side : Side)
  | bbboChg (txTime venue : ℕ) (side : Side) (bestBid bestAsk : ℤ)
  | clear
  | gapDetected
deriving DecidableEq, Repr

/-- What the book reads of the `Asset` in the reference data; units of zero are `false`. -/
structure Asset where
  secId : ℤ
  units : Bool

/-- The members of a `TachBook`.  `prevPl` is the point of the payload the source keeps. -/
structure State (Px : Type) extends Book Px where
  fillSlate : Slate Px (Payload Px) := .new .atDecision
  prevPl : Option Point := none
  prevBestBidPx : ℤ := 0
  prevBestAskPx : ℤ := 2147483647
  eobCounter : ℕ := 0
  haveScale : Bool := false
  haveSecId : Bool := false
  secId : ℤ := 0
  bbboSubs : Bool := false

/-- `release_fill`: the aggressor's own fill is not printed. -/
def releaseFill (f : Released Px (Payload Px)) : List (Out Px) :=
  if f.role = .aggressor then [] else [.tradeNotify f.fill.pl]

/-- `publish_book`; `BBBOChg` asserts a transaction time when it is built. -/
def State.publishBook (s : State Px) (pl : Payload Px) : Option (State Px × List (Out Px)) :=
  let pt := s.toBook.createPoint
  if pt.baddata then some (s, [])
  else if s.prevPl.any pt.fastCompare then some (s, [])
  else
    let n := s.eobCounter + 1
    let bb := s.bid.best
    let ba := s.ask.best
    let burst : List (Out Px) := [.endOfBurst pl pt]
    let burst2 : List (Out Px) :=
      if n % 4 = 0 then
        [.endOfBurst2 pl.tim bb ba (toInt32 (s.bid.getSz bb)) (toInt32 (s.ask.getSz ba))
          pl.mev pl.action pl.side]
      else []
    let s := { s with prevPl := some pt, eobCounter := n }
    if (bb ≠ s.prevBestBidPx ∨ ba ≠ s.prevBestAskPx) ∧ bb ≠ ba then
      if s.bbboSubs ∧ pl.tim = 0 then none
      else
        some ({ s with prevBestBidPx := bb, prevBestAskPx := ba },
          burst ++ burst2 ++ if s.bbboSubs then [.bbboChg pl.tim pl.mkt pl.side bb ba] else [])
    else some (s, burst ++ burst2)

/-! ### Handlers -/

/-- The start of `data_handler`: the security id and the scale are taken from the reference
    data once they are there. -/
def State.latch (s : State Px) (a : Asset) : State Px :=
  { s with
    haveSecId := s.haveSecId || a.secId != 0
    secId := if !s.haveSecId && a.secId != 0 then a.secId else s.secId
    haveScale := s.haveScale || a.units }

/-- The `l3_mbo_v2_t` branch of `data_handler`. -/
def State.onMbo (ops : PriceOps Px) (s : State Px) (m : Mbo Px) :
    Option (State Px × List (Out Px)) :=
  if m.securityID ≠ s.secId then some (s, [])
  else
    let (slate, released) :=
      if m.recovery then (s.fillSlate, [])
      else s.fillSlate.onBook ops.samePx m.orderID m.transactTime m.orderUpdateAction m.pxd
    match s.toBook.applyMbo ops m with
    | none => none
    | some (b, pl) =>
        let s := { s with toBook := b, fillSlate := slate }
        match pl with
        | none => some (s, released.flatMap releaseFill)
        | some pl =>
            if m.recovery then some (s, released.flatMap releaseFill)
            else (s.publishBook pl).map fun r => (r.1, released.flatMap releaseFill ++ r.2)

/-- The `l3_mbo_trd_v2_t` branch: the fill is held until its transaction is decided. -/
def State.onTrd (ops : PriceOps Px) (s : State Px) (t : MboTrd) :
    Option (State Px × List (Out Px)) :=
  let (slate, released) := s.fillSlate.advance t.transactTime
  match s.orders.lookup t.orderID with
  | none => some ({ s with fillSlate := slate }, released.flatMap releaseFill)
  | some ord =>
      let pl : Payload Px :=
        { side := ord.side, exOrderId := t.orderID, orderRef := ⟨0, 0⟩, mev := .mod
          action := .exec, sz := t.lastQty, dispSz := 0, px := ord.pxd, tim := t.transactTime
          sendTim := t.sendingTime, mkt := t.venue, eoe := t.endOfEvent, recovery := false }
      (makePayload ops pl).map fun pl =>
        let (slate', released') := slate.onTrade
          { oid := t.orderID, tx := t.transactTime, px := ord.pxd, side := ord.side
            qty := t.lastQty.toNat, pl := pl
            atTouch := ops.toPx ord.pxd == (s.toBook.side ord.side).best }
        ({ s with fillSlate := slate' }, (released ++ released').flatMap releaseFill)

/-- The `l3_chr_v2_t` branch: a channel reset. -/
def State.onChr (s : State Px) : State Px × List (Out Px) :=
  let (slate, released) := s.fillSlate.flush
  ({ s with toBook := {}, fillSlate := slate }, released.flatMap releaseFill ++ [.clear])

/-- `data_handler`. -/
def State.dataHandler (ops : PriceOps Px) (s : State Px) (a : Asset) (l3 : L3 Px) :
    Option (State Px × List (Out Px)) :=
  let s := s.latch a
  if s.haveScale = false then some (s, [])
  else
    match l3 with
    | .mbo m => s.onMbo ops m
    | .mboTrd t => s.onTrd ops t
    | .chr => some s.onChr
    | .gap => some (s, [.gapDetected])
    | .other => some (s, [])

/-- The messages of a book.  A `Data` message comes with what the reference data hold when
    it is handled; `get_ex_id` may store the id of the reference data as `set_ex_sym_id`
    does. -/
inductive Event (Px : Type) where
  | data (a : Asset) (l3 : L3 Px)
  | setExSymId (id : ℤ)
  | bbboSub
  | shutdown

/-- One message. -/
def step (ops : PriceOps Px) (s : State Px) : Event Px → Option (State Px × List (Out Px))
  | .data a l3 => s.dataHandler ops a l3
  | .setExSymId id => some ({ s with secId := id, haveSecId := true }, [])
  | .bbboSub => some ({ s with bbboSubs := true }, [])
  | .shutdown =>
      let (slate, released) := s.fillSlate.flush
      some ({ s with fillSlate := slate }, released.flatMap releaseFill)

end KasparHft.TachBook
