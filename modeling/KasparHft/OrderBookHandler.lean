import KasparHft.AssocMap
import KasparHft.FillSlate
import KasparHft.OrderBook
import KasparHft.Time

/-!
# The order book actor

`data_handler`, `process_q` and `process_market_data` of `OB.cpp`: the records of the feed
become payloads, and payloads become calls on the book.  `ordermap` finds what the book knows
of an exchange order; executions wait in a `FillSlate` for their order's own record; our own
orders wait in `del_q` until market time has passed their delay; what subscribers are sent
waits in `pub_q` when there is a feed delay.

`none` is an abort.  Logging, counters, the debug flag and the latency records are left out.
Times are nanoseconds that do not wrap, `handlerendtim` is not carried, and the reference
data of the asset do not change.
-/

namespace KasparHft.OB

open AssocMap FillSlate

/-! ### Payloads, messages, members -/

/-- `data_pay_load`; the price is the tick `ref::Price` has made of it. -/
structure Pl extends Payload ℤ where
  ts0 : ℕ := 0
  txtimEpoch : ℕ
  sendtimEpoch : ℕ
  ot : Ot := .uni
  owner : ℕ := 0
deriving DecidableEq, Repr

/-- A payload of `SOM`: an ADD or a MOD. -/
structure SimPl extends Pl where
  mev_eq : mev = .add ∨ mev = .mod

/-- What the book sends to actors. -/
inductive Msg where
  | note (n : Note)
  | tradeNotify (pl : Pl) (pt : Point)
  | endOfBurst (pl : Pl) (pt : Point)
  | endOfBurst2 (txtim : ℕ) (bb ba bs as : ℤ) (mev : Md) (action : Mt) (side : Side)
  | gapDetected
  | unStash (tim : ℕ)
deriving DecidableEq, Repr

/-- A message and the actor it goes to. -/
structure Sent where
  dest : ℕ
  msg : Msg
deriving DecidableEq, Repr

/-- `order_info_t`. -/
structure OrderInfo (Px : Type) where
  chopid : LongId
  xoid : ℕ
  px : Px
  sz : ℕ
  side : Side

/-- What is fixed for a run: the asset, the flags of the constructor, the delays in
    microseconds as `set_delay` and `set_feed_delay` accept them, and `SOM`. -/
structure FeedCfg extends Cfg where
  sym : ℤ
  exSymId : ℤ
  isOption : Bool
  inDailyBreak : ℕ → Bool
  delay : ℤ
  cancelDelay : ℤ
  delay_le : cancelDelay < 0 ∨ delay ≤ cancelDelay
  feedDelay : ℕ
  som : Option ℕ

/-- The members of an `OB`.  `lastGoodPayload` is `last_good_payload` with its point while
    `have_new_payload` holds. -/
structure State (Px : Type) where
  book : Book
  ordermap : Map ℕ (OrderInfo Px) := ∅
  execSlate : Slate Px Pl := .new .atOwnRecord
  bookoid : ℕ := 0
  isInRecovery : Bool := false
  lastTxTim : ℕ := 0
  lastRecoveryTxTim : ℕ := 0
  matching : Bool := true
  firstRecordSeen : Bool := false
  xcheckTx : ℕ := 0
  currtim : ℕ := 0
  txtimEpoch : ℕ := 0
  sendtimEpoch : ℕ := 0
  lastProcessedTs : ℕ := 0
  lastGoodPayload : Option (Pl × Point) := none
  delQ : List (SimPl × Option ℕ) := []
  pubQ : List (ℕ × Sent) := []
  hiprioDatasubs : List ℕ := []
  lowprioDatasubs : List ℕ := []
  bbbosubs : List ℕ := []

/-- The state the constructor leaves. -/
def State.new (Px : Type) (cfg : FeedCfg) : State Px := { book := .new cfg.toCfg }

variable {Px : Type}

/-- One handler after another. -/
def andThen (r : Option (State Px × List Sent)) (f : State Px → Option (State Px × List Sent)) :
    Option (State Px × List Sent) :=
  r.bind fun r => (f r.1).map fun r' => (r'.1, r.2 ++ r'.2)

/-! ### Publishing -/

/-- `publish_delayed`, on each of some messages with its time.  A message is sent at once
    when there is no feed delay or no time. -/
def State.publish (cfg : FeedCfg) (s : State Px) (ms : List (Sent × ℕ)) :
    State Px × List Sent :=
  let now : Sent × ℕ → Bool := fun m => cfg.feedDelay = 0 || m.2 = 0
  ({ s with
      pubQ := s.pubQ ++
        (ms.filter fun m => !now m).map fun m => (m.2 + cfg.feedDelay * 1000, m.1) },
    (ms.filter now).map Prod.fst)

/-- `drain_pub_q`. -/
def State.drainPubQ (s : State Px) (now : ℕ) : State Px × List Sent :=
  ({ s with pubQ := s.pubQ.dropWhile fun m => m.1 ≤ now },
    (s.pubQ.takeWhile fun m => m.1 ≤ now).map Prod.snd)

/-- Who is told what the book has to tell, and under which time: replies take the return
    path, `Clear` is sent at once. -/
def State.address (s : State Px) : Note → List (Sent × ℕ)
  | .clear => (s.lowprioDatasubs ++ s.hiprioDatasubs).map fun a => (⟨a, .note .clear⟩, 0)
  | .bbboChg txTime venue side bb ba =>
      s.bbbosubs.map fun a => (⟨a, .note (.bbboChg txTime venue side bb ba)⟩, txTime)
  | .fill dest id venue px side sz left owner tim =>
      [(⟨dest, .note (.fill dest id venue px side sz left owner tim)⟩, s.lastProcessedTs)]
  | .cancAck dest id fillsz sz =>
      [(⟨dest, .note (.cancAck dest id fillsz sz)⟩, s.lastProcessedTs)]
  | .cancReject dest id => [(⟨dest, .note (.cancReject dest id)⟩, s.lastProcessedTs)]

/-- Tell it. -/
def State.tell (cfg : FeedCfg) (s : State Px) (notes : List Note) : State Px × List Sent :=
  s.publish cfg (notes.flatMap s.address)

/-- `clear`. -/
def State.clear (cfg : FeedCfg) (s : State Px) : Option (State Px × List Sent) :=
  (s.book.clear cfg.toCfg).map fun r =>
    State.tell cfg { s with book := r.1, ordermap := ∅, execSlate := s.execSlate.clear } r.2

/-! ### Points and bursts -/

/-- `calc_ba` and the point's `baddata`. -/
def Book.calcBa (cfg : FeedCfg) (b : Book) : Point :=
  let reach : ℤ := nLevels * 2
  if b.bestBid < reach ∨ cfg.maxprice - reach < b.bestAsk then
    { bidPx := .replicate nLevels 0, askPx := .replicate nLevels (cfg.maxprice - 1)
      bidSz := .replicate nLevels 0, askSz := .replicate nLevels 0, baddata := true }
  else
    let bids := (List.range nLevels).map fun i : ℕ => b.bestBid - i
    let asks := (List.range nLevels).map fun i : ℕ => b.bestAsk + i
    { bidPx := bids
      askPx := asks
      bidSz := bids.map fun px => ordersInBook (b.bidqs px)
      askSz := asks.map fun px => ordersInBook (b.askqs px)
      baddata := b.bestAsk ≤ b.bestBid || b.bestBid ≤ 10 || cfg.maxprice ≤ b.bestAsk }

/-- `shift_zero` on one side: levels without size at the front are dropped, unless no level
    has any. -/
def shiftZeroSide (px sz : List ℤ) : List ℤ × List ℤ :=
  let n := (sz.takeWhile fun x => x ≤ 0).length
  if n = sz.length then (px, sz)
  else (px.drop n ++ .replicate n 0, sz.drop n ++ .replicate n 0)

/-- `shift_zero`. -/
def shiftZero (pt : Point) : Point :=
  let bid := shiftZeroSide pt.bidPx pt.bidSz
  let ask := shiftZeroSide pt.askPx pt.askSz
  { pt with bidPx := bid.1, bidSz := bid.2, askPx := ask.1, askSz := ask.2 }

/-- `handle_eoburst`, while `payload` is processed. -/
def State.handleEoburst (cfg : FeedCfg) (s : State Px) (payload : Pl) : State Px × List Sent :=
  match s.lastGoodPayload with
  | none => (s, [])
  | some (last, pt) =>
      let pt' := if pt.baddata then pt else shiftZero pt
      let burst : List (Sent × ℕ) :=
        if pt.baddata then []
        else s.hiprioDatasubs.map fun a => (⟨a, .endOfBurst last pt'⟩, last.txtimEpoch)
      let unStash : List (Sent × ℕ) :=
        match cfg.som with
        | some a =>
            if 0 < payload.sendtimEpoch then [(⟨a, .unStash (payload.sendtimEpoch + 40000)⟩, 0)]
            else []
        | none => []
      let burst2 : List (Sent × ℕ) := s.lowprioDatasubs.map fun a =>
        (⟨a, .endOfBurst2 last.txtimEpoch (pt'.bidPx.headD 0) (pt'.askPx.headD 0)
          (pt'.bidSz.headD 0) (pt'.askSz.headD 0) last.mev last.action last.side⟩,
          last.txtimEpoch)
      State.publish cfg { s with lastGoodPayload := none } (burst ++ unStash ++ burst2)

/-! ### Payloads -/

/-- The call on the book that a payload is. -/
def Pl.call (currtim : ℕ) (sender : Option ℕ) (pl : Pl) : Call :=
  match pl.mev with
  | .add =>
      .add currtim
        { txtim := pl.txtimEpoch, id := pl.orderRef, side := pl.side, px := pl.px, sz := pl.sz
          sender := sender, ot := pl.ot, owner := pl.owner, exordid := pl.exOrderId
          venue := pl.mkt }
  | _ =>
      .mod
        { sender := sender, txtim := pl.txtimEpoch, id := pl.orderRef, modtyp := pl.action
          side := pl.side, px := pl.px, sz := pl.sz, dispSz := pl.dispSz, mkt := pl.mkt
          exordid := pl.exOrderId }

/-- `process_add_or_mod`. -/
def State.processAddOrMod (cfg : FeedCfg) (s : State Px) (pl : Pl) (sender : Option ℕ) :
    Option (State Px × List Sent) :=
  if pl.isValid = false then none
  else if pl.mev = .add ∨ pl.mev = .mod then
    -- `to_uint` asserts a positive price
    if (pl.isSim ∧ sender = none) ∨ pl.px ≤ 0 then none
    else
      (step cfg.toCfg s.book (pl.call s.currtim sender)).map fun r =>
        let (s₁, o₁) := State.tell cfg { s with book := r.1 } r.2
        let (s₂, o₂) := s₁.handleEoburst cfg pl
        (s₂, o₁ ++ o₂)
  else if pl.mev = .eoburst then some (s.handleEoburst cfg pl)
  else if pl.mev = .clear then State.clear cfg { s with lastTxTim := 0, lastRecoveryTxTim := 0 }
  else if pl.mev = .gap then
    some (s, (s.hiprioDatasubs ++ s.lowprioDatasubs).map fun a => ⟨a, .gapDetected⟩)
  else some (s, [])

/-- The no-cross check on the first payload of a new transaction: fatal in simulation,
    counted in live. -/
def State.checkCross (cfg : FeedCfg) (s : State Px) (pl : Pl) : Option (State Px) :=
  let s' := if pl.isSim = false ∧ s.xcheckTx < pl.tim then { s with xcheckTx := pl.tim } else s
  if s.matching ∧ s.xcheckTx ≠ 0 ∧ pl.isSim = false ∧ s.xcheckTx < pl.tim ∧
      s.book.bestAsk < s.book.bestBid then
    if cfg.doCrossCheck then none
    else some { s' with book := { s.book with numCrossRecover := s.book.numCrossRecover + 1 } }
  else some s'

/-- The end of `process_market_data`: the point of a live payload is kept for the next end of
    burst, a trade is told at once. -/
def State.keepPoint (cfg : FeedCfg) (s : State Px) (pl : Pl) : Option (State Px × List Sent) :=
  if pl.isSim ∨ pl.recovery ∨ pl.mev = .eoburst ∨ pl.mev = .test ∨ pl.mev = .clear ∨
      pl.mev = .gap then some (s, [])
  else if pl.sendTim = 0 then none
  else
    let s := { s with currtim := pl.sendTim, txtimEpoch := pl.txtimEpoch }
    let pt := s.book.calcBa cfg
    if pl.action ≠ .exec then some ({ s with lastGoodPayload := some (pl, pt) }, [])
    else
      let subs := s.hiprioDatasubs ++ s.bbbosubs.filter fun a => a ∉ s.hiprioDatasubs
      some (s.publish cfg (subs.map fun a => (⟨a, .tradeNotify pl pt⟩, pl.txtimEpoch)))

/-- `process_market_data`. -/
def State.processMarketData (cfg : FeedCfg) (s : State Px) (pl : Pl) (sender : Option ℕ) :
    Option (State Px × List Sent) :=
  if pl.mev = .uni then none
  else
    let (s, drained) :=
      if pl.txtimEpoch ≠ 0 ∧ pl.isSim = false then
        State.drainPubQ { s with lastProcessedTs := pl.txtimEpoch } pl.txtimEpoch
      else (s, [])
    andThen (andThen ((s.checkCross cfg pl).map fun s => (s, drained)) fun s =>
      s.processAddOrMod cfg pl sender) fun s => s.keepPoint cfg pl

/-- When one of our orders reaches the engine. -/
def arriveTime (cfg : FeedCfg) (p : Pl) : ℕ :=
  let effDelay := if p.action = .cancd ∧ 0 ≤ cfg.cancelDelay then cfg.cancelDelay else cfg.delay
  p.ts0 + cfg.feedDelay * 1000 + (max 40 effDelay).toNat * 1000

/-- The loop of `process_q`: our orders at the head of `del_q` are let through while they
    have arrived before the time of the record. -/
def popDelQ (cfg : FeedCfg) (tim : ℕ) :
    List (SimPl × Option ℕ) → State Px → Option (State Px × List Sent)
  | [], s => some ({ s with delQ := [] }, [])
  | (p, sender) :: q, s =>
      if p.sendTim = 0 ∨ p.ts0 = 0 then none
      else if arriveTime cfg p.toPl < tim then
        andThen (s.processMarketData cfg p.toPl sender) (popDelQ cfg tim q)
      else some ({ s with delQ := (p, sender) :: q }, [])

/-- `process_q`. -/
def State.processQ (cfg : FeedCfg) (s : State Px) (pl : Pl) : Option (State Px × List Sent) :=
  if pl.px ≤ 0 then some (s, [])
  else if pl.isSim then none
  else
    let s := if pl.txtimEpoch ≠ 0 then { s with lastProcessedTs := pl.txtimEpoch } else s
    andThen (popDelQ cfg pl.tim s.delQ s) fun s => s.processMarketData cfg pl none

/-! ### Executions -/

/-- `release_exec`: the aggressor's own fill is dropped; the clock is put back after the
    others. -/
def State.releaseExec (cfg : FeedCfg) (s : State Px) (f : Released Px Pl) :
    Option (State Px × List Sent) :=
  if f.role = .aggressor then some (s, [])
  else
    (s.processQ cfg f.fill.pl).map fun r =>
      ({ r.1 with currtim := s.currtim, txtimEpoch := s.txtimEpoch }, r.2)

/-- The calls of `release_exec` by one call of the slate. -/
def releaseExecs (cfg : FeedCfg) : List (Released Px Pl) → State Px →
    Option (State Px × List Sent)
  | [], s => some (s, [])
  | f :: fs, s => andThen (s.releaseExec cfg f) (releaseExecs cfg fs)

/-- `process_slated_exec`. -/
def State.processSlatedExec (cfg : FeedCfg) (ops : PriceOps Px) (s : State Px) (m : Mbo Px)
    (pl : Pl) : Option (State Px × List Sent) :=
  let (slate, released) :=
    s.execSlate.onBook ops.samePx m.orderID m.transactTime m.orderUpdateAction m.pxd
  andThen (releaseExecs cfg released { s with execSlate := slate }) fun s => s.processQ cfg pl

/-! ### Book records -/

/-- `make_payload` on a book record. -/
def State.mboPayload (ops : PriceOps Px) (s : State Px) (m : Mbo Px) (side : Side)
    (orderRef : LongId) (mev : Md) (action : Mt) (sz dispSz : ℤ) (px : Px)
    (eoe recovery : Bool) : Option Pl :=
  let pl : Pl :=
    { side := side, exOrderId := m.orderID, orderRef := orderRef, mev := mev, action := action
      sz := sz, dispSz := dispSz, px := ops.toPx px, tim := m.transactTime
      sendTim := m.sendingTime, mkt := m.venue, eoe := eoe, recovery := recovery
      txtimEpoch := s.txtimEpoch, sendtimEpoch := s.sendtimEpoch }
  if ops.pos px && pl.isValid then some pl else none

/-- `longid(venue, bookoid++)`. -/
def State.nextId (s : State Px) (m : Mbo Px) : LongId := ⟨m.venue, s.bookoid⟩

def State.bumpId (s : State Px) : State Px := { s with bookoid := (s.bookoid + 1) % 2 ^ 32 }

/-- The ADD branch of `data_handler`. -/
def State.onAdd (cfg : FeedCfg) (ops : PriceOps Px) (s : State Px) (m : Mbo Px) :
    Option (State Px × List Sent) :=
  match s.ordermap.lookup m.orderID with
  | some o =>
      if m.recovery ∧ ops.pos m.pxd ∧ 0 < m.displayQty then
        -- a snapshot re-sends an order already held; the queues are left alone
        (getSide m.side).map fun side =>
          ({ s with
              ordermap := s.ordermap.insert m.orderID
                { o with px := m.pxd, sz := m.displayQty, side := side } }, [])
      else some (s, [])
  | none =>
      if ops.pos m.pxd = false then some (s, [])
      else
        (getSide m.side).bind fun side =>
          let ord : OrderInfo Px :=
            { chopid := s.nextId m, xoid := m.orderID, px := m.pxd, sz := m.displayQty
              side := side }
          let s := { s.bumpId with ordermap := s.ordermap.insert m.orderID ord }
          if m.displayQty = 0 then none
          else
            (s.mboPayload ops m side ord.chopid .add .none (toInt32 m.displayQty)
              (toInt32 m.displayQty) m.pxd m.endOfEvent m.recovery).bind (s.processQ cfg)

/-- The cancel replace of a Change: the order is deleted and added again under a new id. -/
def State.cancReplace (cfg : FeedCfg) (ops : PriceOps Px) (s : State Px) (m : Mbo Px)
    (ord : OrderInfo Px) : Option (State Px × List Sent) :=
  let side := (getSide m.side).getD ord.side
  let px := if (getSide m.side).isSome then m.pxd else ord.px
  (s.mboPayload ops m ord.side ord.chopid .mod .cancd 0 0 ord.px false false).bind fun pl₁ =>
    andThen (s.processSlatedExec cfg ops m pl₁) fun s =>
      let ref := s.nextId m
      let s := s.bumpId
      (s.mboPayload ops m side ref .add .none (toInt32 m.displayQty) (toInt32 m.displayQty) px
        m.endOfEvent false).bind fun pl₂ =>
          (s.processQ cfg pl₂).bind fun r =>
            if side ≠ ord.side then none
            else
              some ({ r.1 with
                ordermap := r.1.ordermap.insert m.orderID
                  { ord with chopid := ref, xoid := m.orderID, sz := m.displayQty, px := px } },
                r.2)

/-- The CANC branch: a Change of a held order. -/
def State.onCanc (cfg : FeedCfg) (ops : PriceOps Px) (s : State Px) (m : Mbo Px) :
    Option (State Px × List Sent) :=
  match s.ordermap.lookup m.orderID with
  | none => some (s, [])
  | some ord =>
      if (getSide m.side).isNone ∧ ord.sz < m.displayQty then none
      else if ord.sz < m.displayQty ∨ ((getSide m.side).isSome ∧ ops.eq m.pxd ord.px = false) then
        s.cancReplace cfg ops m ord
      else
        -- a regular canc
        let s := { s with
          ordermap := s.ordermap.insert m.orderID { ord with sz := m.displayQty } }
        (s.mboPayload ops m ord.side ord.chopid .mod .canc 0 (toInt32 m.displayQty) ord.px
          m.endOfEvent m.recovery).bind (s.processSlatedExec cfg ops m)

/-- The CANCD branch: a Delete of a held order, or a record that moves one off the ladder. -/
def State.onCancd (cfg : FeedCfg) (ops : PriceOps Px) (s : State Px) (m : Mbo Px) :
    Option (State Px × List Sent) :=
  match s.ordermap.lookup m.orderID with
  | none => some (s, [])
  | some ord =>
      (s.mboPayload ops m ord.side ord.chopid .mod .cancd 0 0 ord.px m.endOfEvent
        m.recovery).bind fun pl =>
          (s.processSlatedExec cfg ops m pl).map fun r =>
            ({ r.1 with ordermap := r.1.ordermap.erase m.orderID }, r.2)

/-- The branches of `data_handler` on a book record (0 New, 1 Change, 2 Delete). -/
def State.applyMbo (cfg : FeedCfg) (ops : PriceOps Px) (s : State Px) (m : Mbo Px)
    (badpxForceDelete : Bool) : Option (State Px × List Sent) :=
  if m.recovery ∧ m.orderUpdateAction ≠ 0 then none
  else if m.orderUpdateAction = 2 ∨ badpxForceDelete then s.onCancd cfg ops m
  else if m.orderUpdateAction = 0 then s.onAdd cfg ops m
  else if m.orderUpdateAction = 1 then s.onCanc cfg ops m
  else none

/-- The recovery gate: the times it keeps, and whether the record passes. -/
def State.gate (s : State Px) (m : Mbo Px) : State Px × Bool :=
  let extim := m.transactTime
  let s :=
    if extim = 0 then s
    else if m.recovery then { s with lastRecoveryTxTim := extim }
    else { s with lastTxTim := extim }
  if extim ≠ 0 ∧ s.lastTxTim ≠ 0 ∧ s.lastRecoveryTxTim ≠ 0 then
    if m.recovery then
      if extim < s.lastTxTim then (s, false) else ({ s with lastRecoveryTxTim := extim }, true)
    else
      if extim ≤ s.lastRecoveryTxTim then (s, false) else ({ s with lastTxTim := extim }, true)
  else (s, true)

/-- The start and the end of a recovery. -/
def State.trackRecovery (cfg : FeedCfg) (s : State Px) (m : Mbo Px) :
    Option (State Px × List Sent) :=
  if m.recovery ∧ s.isInRecovery = false then
    (s.clear cfg).map fun r => ({ r.1 with isInRecovery := true }, r.2)
  else if m.recovery = false ∧ s.isInRecovery then some ({ s with isInRecovery := false }, [])
  else some (s, [])

/-- The price of a record is a price of the ladder. -/
def onLadder (cfg : FeedCfg) (ops : PriceOps Px) (px : Px) : Bool :=
  0 < ops.toPx px && ops.toPx px < cfg.maxprice

/-- `data_handler` on a book record. -/
def State.onMbo (cfg : FeedCfg) (ops : PriceOps Px) (s : State Px) (m : Mbo Px) :
    Option (State Px × List Sent) :=
  let bad := !onLadder cfg ops m.pxd
  if bad ∧ m.orderUpdateAction = 0 then some (s, [])
  else if m.securityID ≠ cfg.exSymId ∧ m.securityID ≠ cfg.sym then some (s, [])
  else
    let s := { s with txtimEpoch := m.transactTime, sendtimEpoch := m.sendingTime }
    if cfg.isOption then some (s, [])
    else
      let (s, passes) := s.gate m
      if passes = false then some (s, [])
      else andThen (s.trackRecovery cfg m) fun s => s.applyMbo cfg ops m bad

/-! ### The other records -/

/-- `data_handler` on a trade record: the execution is slated. -/
def State.onTrd (cfg : FeedCfg) (ops : PriceOps Px) (s : State Px) (t : MboTrd) :
    Option (State Px × List Sent) :=
  if cfg.isOption then some (s, [])
  else
    let s := { s with txtimEpoch := t.transactTime, sendtimEpoch := t.sendingTime }
    let (slate, released) := s.execSlate.advance t.transactTime
    andThen (releaseExecs cfg released { s with execSlate := slate }) fun s =>
      match s.ordermap.lookup t.orderID with
      | none => some (s, [])
      | some ord =>
          let pl : Pl :=
            { side := ord.side, exOrderId := t.orderID, orderRef := ord.chopid, mev := .mod
              action := .exec, sz := t.lastQty, dispSz := 0, px := ops.toPx ord.px
              tim := t.transactTime, sendTim := t.sendingTime, mkt := t.venue
              eoe := t.endOfEvent, recovery := false, txtimEpoch := s.txtimEpoch
              sendtimEpoch := s.sendtimEpoch }
          if ops.pos ord.px && pl.isValid then
            let best := match ord.side with
              | .buy => s.book.bestBid
              | .sel => s.book.bestAsk
            let (slate, released) := s.execSlate.onTrade
              { oid := t.orderID, tx := t.transactTime, px := ord.px, side := ord.side
                qty := t.lastQty.toNat, atTouch := ops.toPx ord.px == best, pl := pl }
            releaseExecs cfg released { s with execSlate := slate }
          else none

/-- `data_handler` on a channel reset, a gap or an end of burst. -/
def State.onControl (cfg : FeedCfg) (s : State Px) (mev : Md) : Option (State Px × List Sent) :=
  s.processMarketData cfg
    { side := .buy, exOrderId := 0, orderRef := ⟨0, 0⟩, mev := mev, action := .uni, sz := -1
      dispSz := 0, px := 0, tim := 0, sendTim := 0, mkt := xUNI, eoe := false, recovery := false
      txtimEpoch := s.txtimEpoch, sendtimEpoch := s.sendtimEpoch } none

/-- `data_handler` on one of our own orders: it waits in `del_q`, or is applied at once when it
    has no market time.  A market time before 2020 aborts. -/
def State.onSim (cfg : FeedCfg) (s : State Px) (p : SimPl) (sender : Option ℕ) :
    Option (State Px × List Sent) :=
  if p.isSim = false ∨ s.currtim = 0 then none
  else
    let p : SimPl := { p with sendTim := s.currtim, txtimEpoch := s.currtim }
    if p.ts0 = 0 then
      if s.delQ ≠ [] then none else s.processMarketData cfg p.toPl sender
    else if (Chutil.Time.fromEpoch (.ofNat p.ts0)).isValid = false then none
    else some ({ s with delQ := s.delQ ++ [(p, sender)] }, [])

/-- The rule for a first record in the daily break; a status message sets `matching`
    itself. -/
def State.firstRecord (cfg : FeedCfg) (s : State Px) (txTime : ℕ) (isSst : Bool) : State Px :=
  if s.firstRecordSeen ∨ txTime = 0 then s
  else
    { s with
      firstRecordSeen := true
      matching := s.matching && (isSst || !cfg.inDailyBreak txTime) }

/-- The messages of an `OB`. -/
inductive Event (Px : Type) where
  | mbo (m : Mbo Px)
  | mboTrd (t : MboTrd)
  | chr
  | gap
  | eob
  | sst (txtim tradingStatus : ℕ)
  | other (txTime : ℕ)
  | sim (p : SimPl) (sender : Option ℕ)
  | bbboSub (sender : ℕ)
  | subscribe (hi : Bool) (sender : ℕ)

/-- One message. -/
def handle (cfg : FeedCfg) (ops : PriceOps Px) (s : State Px) :
    Event Px → Option (State Px × List Sent)
  | .mbo m => (s.firstRecord cfg m.transactTime false).onMbo cfg ops m
  | .mboTrd t => (s.firstRecord cfg t.transactTime false).onTrd cfg ops t
  | .chr => s.onControl cfg .clear
  | .gap => s.onControl cfg .gap
  | .eob => s.onControl cfg .eoburst
  | .sst txtim tradingStatus =>
      some ({ s.firstRecord cfg txtim true with matching := tradingStatus == 17 }, [])
  | .other txTime => some (s.firstRecord cfg txTime false, [])
  | .sim p sender => s.onSim cfg p sender
  | .bbboSub sender =>
      some ({ s with
        bbbosubs := s.bbbosubs ++ [sender], book := { s.book with bbboSubs := true } }, [])
  | .subscribe hi sender =>
      if sender ∈ s.hiprioDatasubs ++ s.lowprioDatasubs then none
      else if hi then some ({ s with hiprioDatasubs := s.hiprioDatasubs ++ [sender] }, [])
      else some ({ s with lowprioDatasubs := s.lowprioDatasubs ++ [sender] }, [])

end KasparHft.OB
