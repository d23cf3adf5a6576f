import KasparHft.MarketData
import KasparHft.QCoord
import Mathlib.Data.Finset.Erase
import Mathlib.Data.Finset.Insert
import Mathlib.Data.Rat.Defs
import Mathlib.Algebra.Order.Ring.Rat
import Mathlib.Algebra.Order.Group.Abs

/-!
# The shadow lights

`light/act/light22_base.hpp` and `light/act/light22.hpp`: a light works one order at a time.
The lights of a side share a `QCoord`, which holds their working orders, and a `PCoord`,
which holds the position.

Each light has a thread of its own.  `QCoord` and `PCoord` lock their mutex for one access,
the end of `place_if_can_impl` holds that of the `QCoord`; in between, the handlers of other
lights may come in.  A handler is the parts it has between such points.  The locked part
reads the position twice and asserts that it comes to the same size, so it is read once here.

`none` is an abort: a failed assertion, `ERRF` or `SNGH`.  Prices are ticks, sizes are whole
lots.  A message that may place an order comes with the draw of the light's generator and
with the id the order manager acks; no id stands for an order held back by the gunning
protection.  Logging, counters that are only logged, the name of the instrument, forwarding
to subscribers and the range checks of `place` (compiled out where trading is fast) are left
out.
-/

namespace KasparHft.Light22

open AssocMap

/-! ### Orders and messages -/

/-- `ord_info_t` with a value. -/
structure OrdInfo where
  oid : ℤ
  px : ℤ
  canc : Bool
deriving DecidableEq, Repr

/-- `side_to_trade_t`. -/
inductive SideToTrade where
  | long | short | both
deriving DecidableEq, Repr

/-- `CancReject::reason`. -/
inductive CancRejReason where
  | notFound | filledAlready | cancelledAlready | rejectedPreviously | notAcked
  | internalOidToCanc | rejectOnMod | fromExchange | fromExchangeBusinessReject | throttle
  | disconnected | notLoggedIn | unknown
deriving DecidableEq, Repr

/-- `Reject::reason`. -/
inductive RejReason where
  | unknown | overLimit | throttle | exchLimit | disconnected | notLoggedIn
deriving DecidableEq, Repr

/-- The keys of `light::msg::Set`, with the value of those that have one. -/
inductive SetKey where
  | subscribeOnly
  | targetPos (v : ℤ)
  | levOrdersMax (v : ℤ)
  | tradingOff
  | tradingOn
  | dump
  | other
deriving DecidableEq, Repr

/-- The timers of a light. -/
inductive TimerId where
  | unsuspend | resetLastTradePrice | delayedCancel | aggrTtl | other
deriving DecidableEq, Repr

/-- The messages a light handles. -/
inductive Msg where
  | endOfBurst (pl : Payload ℤ) (pt : Point) (draw : ℕ) (ack : Option ℤ)
  | tradeNotify (pl : Payload ℤ) (pt : Point) (draw : ℕ) (ack : Option ℤ)
  | fill (id sz stillToBeFilled : ℤ)
  | cancAck (id : ℤ)
  | cancReject (id : ℤ) (reason : CancRejReason)
  | reject (id : ℤ) (reason : RejReason)
  | gapDetected
  | clear
  | alarm (timer : TimerId) (now : ℕ)
  | start
  | stop
  | set (key : SetKey)

/-- What a light sends. -/
inductive Out where
  | order (id sz px : ℤ) (ts : ℕ)
  | cancel (id : ℤ) (ts : ℕ)
  | alarmClockSub (s ms : ℤ) (timer : TimerId)
deriving DecidableEq, Repr

/-! ### State -/

/-- The members of a light that its handlers only read; `delay`, `delayCanc` and
    `sideToTrade` are never assigned. -/
structure Cfg where
  side : Side
  mdVenue : ℕ
  dryRun : Bool := false
  maxDist : ℤ := 4
  maxDistCancel : ℤ := 6
  placeAfterNEob : ℤ := 5
  placeRateBp : ℤ := 300
  delayedCancelEvents : ℤ := 0
  delayedCancelMs : ℤ := 0
  workMultiple : ℚ := 1
  aggrParticipationBp : ℤ := 0
  aggrTtlMs : ℤ := 1
  maxLimitOrderSize : ℤ := 0
  nlevels : ℤ
  maxDistForCap : ℤ := 4
  delay : Bool := false
  delayCanc : Bool := false
  sideToTrade : SideToTrade := .both

/-- `place_rate_thresh` and `aggr_participation_thresh`: basis points of 2^32. -/
def thresh (bp : ℤ) : ℕ := (max 0 bp).toNat * 2 ^ 32 / 10000

/-- The members of a light that its handlers change. -/
structure Light where
  ordInfo : Option OrdInfo := none
  cancelRequests : Finset ℤ := ∅
  attachedOrderId : ℕ := 0
  attachedIsTrade : Bool := false
  pendingCancelEob : ℤ := 0
  skip : ℤ := 10
  eobCounter : ℤ := 0
  currTxTime : ℕ := 0
  targetpos : ℤ := 0
  levOrdersMax : ℤ
  ordSz : ℤ
  allOrdersMax : ℤ
  trading : Bool := true
  aggrTtlOid : ℤ := -1
  aggrTtlArmedTx : ℕ := 0
  numCancRejFromExchange : ℤ := 0
  numRejFromExchange : ℤ := 0
  numCancRejUnk : ℤ := 0

/-- `ord_info.has_value() && !ord_info.get_canc()`. -/
def Light.working (l : Light) : Bool :=
  match l.ordInfo with
  | some o => !o.canc
  | none => false

/-- What one handler works on: its light and what the lights share. -/
structure Desk where
  light : Light
  qcoord : QCoord
  position : ℤ

/-- What is left of a handler where other lights may come in, with what it has read so far. -/
inductive Rest where
  | readTotal (pl : Payload ℤ) (pt : Point) (alreadyGated : Bool) (draw : ℕ) (ack : Option ℤ)
  | sizeAndPlace (pl : Payload ℤ) (workOrds : ℤ) (alreadyGated : Bool) (draw : ℕ)
      (ack : Option ℤ)
  | readLevel (px pos : ℤ) (pt : Point)
  | cancelOrder
  | addPosition (id sz stillToBeFilled : ℤ)

/-- A part of a handler: what it leaves, what it sends, and what is left to do. -/
structure Part where
  desk : Desk
  out : List Out
  rest : Option Rest := none

/-- A part that ends its handler. -/
def lastPart (r : Option (Desk × List Out)) : Option Part := r.map fun (d, o) => ⟨d, o, none⟩

/-! ### Orders -/

/-- `cancel_order`. -/
def Desk.cancelOrder (mmid : ℕ) (d : Desk) (fromRej : Bool) : Option (Desk × List Out) :=
  match d.light.ordInfo with
  | none => some (d, [])
  | some o =>
      let l := { d.light with pendingCancelEob := 0 }
      if o.canc then some ({ d with light := l }, [])
      else
        match d.qcoord.removeOrder o.px 0 mmid o.oid true with
        | none => none
        | some (q, stbf) =>
            if stbf ≠ 0 then none
            else
              some ({ d with
                light := { l with
                  cancelRequests := insert o.oid l.cancelRequests
                  ordInfo := some { o with canc := true } }
                qcoord := q }, if fromRej then [] else [.cancel o.oid l.currTxTime])

/-- The macro `RET`: the order is cancelled unless it is already. -/
def Desk.ret (mmid : ℕ) (d : Desk) : Option (Desk × List Out) :=
  if d.light.working then d.cancelOrder mmid false else some (d, [])

/-- `place_order`; the id is -1 where the gunning protection holds the order back. -/
def Desk.placeOrder (c : Cfg) (mmid : ℕ) (d : Desk) (price sz : ℤ) (ts : ℕ) (ack : Option ℤ) :
    Option (Desk × ℤ × List Out) :=
  if ¬ (0 < price ∧ 0 < sz) then none
  else
    match ack with
    | none => some (d, -1, [])
    | some id =>
        let sz := if 0 < c.maxLimitOrderSize ∧ c.maxLimitOrderSize < sz then c.maxLimitOrderSize
          else sz
        if d.light.ordInfo.isSome then none
        else
          (d.qcoord.addOrder price sz mmid id d.light.levOrdersMax).map fun q =>
            ({ d with light := { d.light with ordInfo := some ⟨id, price, false⟩ }, qcoord := q },
              id, [.order id sz price ts])

/-! ### Placing -/

/-- The position is at the target of this side or beyond. -/
def atTarget (side : Side) (pos target : ℤ) : Bool :=
  match side with
  | .buy => target ≤ pos
  | .sel => pos ≤ target

/-- An order of this side may not be placed. -/
def sideBarred (c : Cfg) : Bool :=
  c.sideToTrade == .long && c.side == .sel || c.sideToTrade == .short && c.side == .buy

/-- `point_.bid_px[0]` and `point_.ask_px[0]`. -/
def bid0 (pt : Point) : ℤ := pt.bidPx.headD 0
def ask0 (pt : Point) : ℤ := pt.askPx.headD 0

/-- A passive order at `px` would cross. -/
def wouldCross (side : Side) (px : ℤ) (pt : Point) : Bool :=
  match side with
  | .buy => 0 < ask0 pt && ask0 pt ≤ px
  | .sel => 0 < bid0 pt && px ≤ bid0 pt

/-- `px` is more than `dist` ticks from the touch. -/
def tooFar (side : Side) (px dist : ℤ) (pt : Point) : Bool :=
  match side with
  | .buy => px < bid0 pt - dist
  | .sel => ask0 pt + dist < px

/-- `compute_possible_order_sz`. -/
def possibleOrderSz (l : Light) (szAtPx diffFromTarget payloadSz : ℤ) : ℤ :=
  if diffFromTarget ≤ szAtPx then 0
  else min payloadSz (min (min (l.levOrdersMax - szAtPx) l.ordSz) diffFromTarget)

/-- The placement mode: whether this event is acted on, with the counter it leaves. -/
def gate (c : Cfg) (l : Light) (alreadyGated : Bool) (draw : ℕ) : Bool × Light :=
  if alreadyGated then (true, { l with eobCounter := 0 })
  else if c.placeRateBp < 0 then (false, l)
  else if 0 < c.placeRateBp then
    if thresh c.placeRateBp ≤ draw then (false, l) else (true, { l with eobCounter := 0 })
  else if l.eobCounter + 1 < c.placeAfterNEob then
    (false, { l with eobCounter := l.eobCounter + 1 })
  else (true, { l with eobCounter := 0 })

/-- The end of `place_if_can_impl`: attach to the order shadowed and place. -/
def Desk.attachAndPlace (c : Cfg) (mmid : ℕ) (d : Desk) (pl : Payload ℤ) (sz : ℤ)
    (alreadyGated : Bool) (draw : ℕ) (ack : Option ℤ) : Option (Desk × List Out) :=
  let d := { d with
    light := { d.light with attachedOrderId := pl.exOrderId, attachedIsTrade := alreadyGated } }
  if pl.exOrderId ≠ 0 ∧ d.qcoord.attachedOrderId = pl.exOrderId then some (d, [])
  else
    let (go, l) := gate c d.light alreadyGated draw
    let d := { d with light := l }
    if ¬ go ∨ c.dryRun then some (d, [])
    else
      (d.placeOrder c mmid pl.px sz pl.tim ack).map fun (d, id, o) =>
        if id < 0 then (d, o)
        else
          let d := { d with
            light := { d.light with pendingCancelEob := 0 }
            qcoord := { d.qcoord with attachedOrderId := pl.exOrderId } }
          if alreadyGated ∧ 0 < c.aggrTtlMs then
            ({ d with light := { d.light with aggrTtlOid := id, aggrTtlArmedTx := pl.tim } },
              o ++ [.alarmClockSub (c.aggrTtlMs / 1000) (c.aggrTtlMs % 1000) .aggrTtl])
          else (d, o)

/-- `place_if_can_impl` from the lock on: `workOrds` was read before it. -/
def Desk.sizeAndPlace (c : Cfg) (mmid : ℕ) (d : Desk) (pl : Payload ℤ) (workOrds : ℤ)
    (alreadyGated : Bool) (draw : ℕ) (ack : Option ℤ) : Option (Desk × List Out) :=
  let diffFromTarget := |d.position - d.light.targetpos|
  let r := d.qcoord.szAtPx pl.px
  let d := { d with qcoord := r.1 }
  if c.workMultiple * diffFromTarget ≤ workOrds then some (d, [])
  else if ¬ (0 ≤ d.light.levOrdersMax ∧ 0 ≤ r.2) then none
  else
    let sz := possibleOrderSz d.light r.2 diffFromTarget pl.sz
    if sz ≤ 0 then some (d, [])
    else d.attachAndPlace c mmid pl sz alreadyGated draw ack

/-- `place_if_can_impl` from the total to the lock. -/
def Desk.readTotal (c : Cfg) (d : Desk) (pl : Payload ℤ) (pt : Point) (alreadyGated : Bool)
    (draw : ℕ) (ack : Option ℤ) : Part :=
  let workOrds := d.qcoord.totSzCache
  if d.light.allOrdersMax < workOrds + d.light.ordSz then ⟨d, [], none⟩
  else if !alreadyGated && wouldCross c.side pl.px pt then ⟨d, [], none⟩
  else if tooFar c.side pl.px c.maxDist pt then ⟨d, [], none⟩
  else ⟨d, [], some (.sizeAndPlace pl workOrds alreadyGated draw ack)⟩

/-- `place_if_can_impl` up to the total. -/
def Desk.placeIfCan (c : Cfg) (d : Desk) (pl : Payload ℤ) (pt : Point) (alreadyGated : Bool)
    (draw : ℕ) (ack : Option ℤ) : Part :=
  if pl.mkt ≠ c.mdVenue then ⟨d, [], none⟩
  else if !d.light.trading && atTarget c.side d.position d.light.targetpos then ⟨d, [], none⟩
  else if c.delay then ⟨d, [], none⟩
  else if atTarget c.side d.position d.light.targetpos then ⟨d, [], none⟩
  else if sideBarred c then ⟨d, [], some .cancelOrder⟩
  else ⟨d, [], some (.readTotal pl pt alreadyGated draw ack)⟩

/-! ### Market data -/

/-- `canc_if_must_impl` from the size at the price on, for the order at `px`. -/
def Desk.readLevel (c : Cfg) (d : Desk) (px pos : ℤ) (pt : Point) : Option Part :=
  let r := d.qcoord.szAtPx px
  let d := { d with qcoord := r.1 }
  if pos = 0 ∨ atTarget c.side pos d.light.targetpos ∨ |pos - d.light.targetpos| < r.2 then
    some ⟨d, [], some .cancelOrder⟩
  else if ¬ 0 < r.2 then none
  else if d.light.levOrdersMax < r.2 ∨ c.delayCanc ∨ tooFar c.side px c.maxDistCancel pt then
    some ⟨d, [], some .cancelOrder⟩
  else some ⟨d, [], none⟩

/-- `canc_if_must_impl` up to the size at the price. -/
def Desk.cancIfMust (d : Desk) (px : ℤ) (pt : Point) : Part :=
  ⟨d, [], some (.readLevel px d.position pt)⟩

/-- `is_add`, `is_canc`, `is_hit` and `is_tak` of a payload. -/
def isAdd (pl : Payload ℤ) : Bool := pl.mev == .add
def isCanc (pl : Payload ℤ) : Bool :=
  (pl.mev == .mod || pl.mev == .del) && (pl.action == .canc || pl.action == .cancd)
def isTrade (pl : Payload ℤ) : Bool := pl.mev == .mod && pl.action == .exec
def isHit (pl : Payload ℤ) : Bool := isTrade pl && pl.side == .buy
def isTak (pl : Payload ℤ) : Bool := isTrade pl && pl.side == .sel

/-- The order the light has attached to is hit or cancelled. -/
def attachedGone (l : Light) (pl : Payload ℤ) : Bool :=
  l.working && !l.attachedIsTrade && pl.exOrderId == l.attachedOrderId && l.attachedOrderId != 0

/-- `eob_handler` from the check of the attached order on. -/
def Desk.actOnBurst (c : Cfg) (mmid : ℕ) (d : Desk) (pl : Payload ℤ) (pt : Point) (draw : ℕ)
    (ack : Option ℤ) : Option Part :=
  if attachedGone d.light pl then
    let l := { d.light with attachedOrderId := 0, attachedIsTrade := false }
    if 0 < c.delayedCancelEvents then
      some ⟨{ d with light := { l with pendingCancelEob := c.delayedCancelEvents } }, [], none⟩
    else if 0 < c.delayedCancelMs then
      some ⟨{ d with light := l },
        [.alarmClockSub (c.delayedCancelMs / 1000) (c.delayedCancelMs % 1000) .delayedCancel],
        none⟩
    else lastPart ({ d with light := l }.ret mmid)
  else
    match d.light.ordInfo with
    | none =>
        if isAdd pl && pl.side == c.side then some (d.placeIfCan c pl pt false draw ack)
        else some ⟨d, [], none⟩
    | some o => if !o.canc && isCanc pl then some (d.cancIfMust o.px pt) else some ⟨d, [], none⟩

/-- The countdown of a delayed cancel. -/
def Desk.countDown (mmid : ℕ) (d : Desk) : Option (Desk × List Out) :=
  if 0 < d.light.pendingCancelEob then
    let d := { d with light := { d.light with pendingCancelEob := d.light.pendingCancelEob - 1 } }
    if d.light.pendingCancelEob = 0 then d.ret mmid else some (d, [])
  else some (d, [])

/-- A computation after another: the outputs in order. -/
def andThen (r : Option (Desk × List Out)) (f : Desk → Option Part) : Option Part :=
  match r with
  | none => none
  | some (d, o) => (f d).map fun p => { p with out := o ++ p.out }

/-- `eob_handler`. -/
def Desk.eobHandler (c : Cfg) (mmid : ℕ) (d : Desk) (pl : Payload ℤ) (pt : Point) (draw : ℕ)
    (ack : Option ℤ) : Option Part :=
  let d := { d with light := { d.light with currTxTime := pl.tim } }
  if ¬ pl.isValid ∨ pl.recovery then none
  else if pl.mkt ≠ c.mdVenue then some ⟨d, [], none⟩
  else
    andThen (d.countDown mmid) fun d =>
      if 0 < d.light.skip then
        lastPart ({ d with light := { d.light with skip := d.light.skip - 1 } }.ret mmid)
      else
        let d := { d with light := { d.light with skip := 0 } }
        if pl.action = .exec then none
        else if pt.baddata ∨ pl.mev = .clear then lastPart (d.ret mmid)
        else d.actOnBurst c mmid pl pt draw ack

/-- `tradenotify_handler`. -/
def Desk.tradeNotifyHandler (c : Cfg) (d : Desk) (pl : Payload ℤ) (pt : Point) (draw : ℕ)
    (ack : Option ℤ) : Part :=
  if c.aggrParticipationBp ≤ 0 then ⟨d, [], none⟩
  else if pl.mkt ≠ c.mdVenue then ⟨d, [], none⟩
  else if d.light.ordInfo.isSome then ⟨d, [], none⟩
  else if c.side = .buy ∧ ¬ isTak pl then ⟨d, [], none⟩
  else if c.side = .sel ∧ ¬ isHit pl then ⟨d, [], none⟩
  else if thresh c.aggrParticipationBp ≤ draw then ⟨d, [], none⟩
  else d.placeIfCan c pl pt true draw ack

/-! ### Messages of the order manager -/

/-- The slot is cleared. -/
def Light.clearSlot (l : Light) : Light := { l with ordInfo := none }

/-- `PCoord::add_position`; a size below one is logged. -/
def addPosition (side : Side) (pos sz : ℤ) : ℤ := if sz < 1 then pos else pos + side.sign * sz

/-- `som_fill_handler` from the position on. -/
def Desk.addPosition (c : Cfg) (d : Desk) (sz stillToBeFilled : ℤ) : Option (Desk × List Out) :=
  let d := { d with position := Light22.addPosition c.side d.position sz }
  if stillToBeFilled < 0 then none
  else if stillToBeFilled ≤ 0 then some ({ d with light := d.light.clearSlot }, [])
  else some (d, [])

/-- `som_fill_handler` up to the position. -/
def Desk.fillHandler (mmid : ℕ) (d : Desk) (id sz stillToBeFilled : ℤ) : Option Part :=
  let q : Option QCoord :=
    match d.light.ordInfo with
    | none => some d.qcoord
    | some o =>
        if id ≠ o.oid ∨ o.canc then some d.qcoord
        else (d.qcoord.removeOrder o.px sz mmid id false).map Prod.fst
  q.map fun q => ⟨{ d with qcoord := q }, [], some (.addPosition id sz stillToBeFilled)⟩

/-- `som_canc_ack_handler`. -/
def Desk.cancAckHandler (mmid : ℕ) (d : Desk) (id : ℤ) : Option (Desk × List Out) :=
  match d.light.ordInfo with
  | none => none
  | some o =>
      let r : Option Desk :=
        if id ∈ d.light.cancelRequests then
          some { d with
            light := { d.light with cancelRequests := d.light.cancelRequests.erase id } }
        else
          (d.qcoord.removeOrder o.px 0 mmid o.oid true).map fun r => { d with qcoord := r.1 }
      r.map fun d => (if id = o.oid then { d with light := d.light.clearSlot } else d, [])

/-- The branches of `som_cancrej_handler` that clear the slot of the order named: `other` is
    what happens where the slot has another order, `count` what happens at the end. -/
def Desk.rejNamed (d : Desk) (id : ℤ) (other count : Light → Light) :
    Option (Desk × List Out) :=
  d.light.ordInfo.map fun o =>
    let l := if id = o.oid then d.light.clearSlot else other d.light
    ({ d with light := count l }, [])

/-- A rejection from the exchange is counted; after 500 the light sleeps. -/
def countFromExchange (l : Light) : Light :=
  { l with
    numCancRejFromExchange := l.numCancRejFromExchange + 1
    skip := if 500 < l.numCancRejFromExchange then 1000 else l.skip }

/-- An unexpected rejection is counted; after 100 the light sleeps. -/
def countUnknown (l : Light) : Light :=
  { l with
    numCancRejUnk := l.numCancRejUnk + 1
    skip := if 100 < l.numCancRejUnk then 1000 else l.skip }

/-- `som_cancrej_handler`. -/
def Desk.cancRejHandler (mmid : ℕ) (d : Desk) (id : ℤ) (reason : CancRejReason) :
    Option (Desk × List Out) :=
  match reason with
  | .notAcked => { d with light := { d.light with skip := 50 } }.cancelOrder mmid true
  | .internalOidToCanc | .rejectOnMod =>
      some ({ d with light := { d.light with skip := 50 } }, [.cancel id d.light.currTxTime])
  | .filledAlready | .cancelledAlready | .rejectedPreviously => some (d, [])
  | .fromExchange | .fromExchangeBusinessReject => d.rejNamed id (fun l => l) countFromExchange
  | .throttle =>
      some ({ d with light := { d.light with skip := 1000 } }, [.cancel id d.light.currTxTime])
  | .notFound | .disconnected | .notLoggedIn | .unknown =>
      d.rejNamed id (fun l => { l with skip := 100 }) countUnknown

/-- What a reason of `som_reject_handler` does: the pause, and the alarm that ends it. -/
def rejectPause (l : Light) : RejReason → Light × List Out
  | .throttle =>
      ({ l with skip := 50, numRejFromExchange := 0 }, [.alarmClockSub 0 500 .unsuspend])
  | .exchLimit => ({ l with skip := 50 }, [.alarmClockSub 0 500 .unsuspend])
  | .disconnected => ({ l with skip := 100 }, [.alarmClockSub 5 0 .unsuspend])
  | .unknown | .overLimit | .notLoggedIn => ({ l with skip := 5 }, [])

/-- `som_reject_handler`. -/
def Desk.rejectHandler (mmid : ℕ) (d : Desk) (reason : RejReason) : Option (Desk × List Out) :=
  let q : Option QCoord :=
    match d.light.ordInfo with
    | none => some d.qcoord
    | some o => (d.qcoord.removeOrder o.px 0 mmid o.oid true).map Prod.fst
  q.map fun q =>
    let (l, o) := rejectPause d.light reason
    let l := l.clearSlot
    ({ d with
      light := { l with
        numRejFromExchange := l.numRejFromExchange + 1
        skip := if 100 < l.numRejFromExchange then 1000 else l.skip }
      qcoord := q }, o)

/-! ### Other messages -/

/-- `alarm_handler` and `alarm_handler_impl`. -/
def Desk.alarmHandler (c : Cfg) (mmid : ℕ) (d : Desk) (now : ℕ) :
    TimerId → Option (Desk × List Out)
  | .aggrTtl =>
      let oldEnough := 0 < d.light.aggrTtlArmedTx ∧ d.light.aggrTtlArmedTx < now ∧
        0 ≤ c.aggrTtlMs ∧ c.aggrTtlMs.toNat * 1000000 ≤ now - d.light.aggrTtlArmedTx
      match d.light.ordInfo with
      | none => some (d, [])
      | some o =>
          if !o.canc ∧ o.oid = d.light.aggrTtlOid ∧ oldEnough then
            { d with light := { d.light with currTxTime := now } }.cancelOrder mmid false
          else some (d, [])
  | .delayedCancel =>
      if d.light.working then
        { d with light := { d.light with currTxTime := now } }.cancelOrder mmid false
      else some (d, [])
  | .unsuspend | .resetLastTradePrice | .other => some (d, [])

/-- `light_set_handler`. -/
def Desk.setHandler (c : Cfg) (mmid : ℕ) (d : Desk) : SetKey → Option (Desk × List Out)
  | .subscribeOnly | .dump => some (d, [])
  | .targetPos v => some ({ d with light := { d.light with targetpos := v } }, [])
  | .levOrdersMax v =>
      some ({ d with light := { d.light with
        levOrdersMax := v
        allOrdersMax := max (v * (c.nlevels + 3)) ((c.maxDistForCap + 1) * v)
        ordSz := v } }, [])
  | .tradingOff => { d with light := { d.light with trading := false } }.ret mmid
  | .tradingOn => some ({ d with light := { d.light with trading := true } }, [])
  | .other => none

/-- The first part of the handler of a message. -/
def Desk.start (c : Cfg) (mmid : ℕ) (d : Desk) : Msg → Option Part
  | .endOfBurst pl pt draw ack => d.eobHandler c mmid pl pt draw ack
  | .tradeNotify pl pt draw ack => some (d.tradeNotifyHandler c pl pt draw ack)
  | .fill id sz stbf => d.fillHandler mmid id sz stbf
  | .cancAck id => lastPart (d.cancAckHandler mmid id)
  | .cancReject id reason => lastPart (d.cancRejHandler mmid id reason)
  | .reject _ reason => lastPart (d.rejectHandler mmid reason)
  | .gapDetected => lastPart (d.ret mmid)
  | .clear =>
      lastPart ((d.cancelOrder mmid false).map fun (d, o) =>
        ({ d with light := { d.light with skip := 10 } }, o))
  | .alarm timer now => lastPart (d.alarmHandler c mmid now timer)
  | .start => some ⟨{ d with light := { d.light with trading := true } }, [], none⟩
  | .stop => some ⟨{ d with light := { d.light with trading := false } }, [], none⟩
  | .set key => lastPart (d.setHandler c mmid key)

/-- The next part of a handler. -/
def Desk.resume (c : Cfg) (mmid : ℕ) (d : Desk) : Rest → Option Part
  | .readTotal pl pt alreadyGated draw ack => some (d.readTotal c pl pt alreadyGated draw ack)
  | .sizeAndPlace pl workOrds alreadyGated draw ack =>
      lastPart (d.sizeAndPlace c mmid pl workOrds alreadyGated draw ack)
  | .readLevel px pos pt => d.readLevel c px pos pt
  | .cancelOrder => lastPart (d.cancelOrder mmid false)
  | .addPosition _ sz stbf => lastPart (d.addPosition c sz stbf)

/-- A part and the next one, where nothing comes in between. -/
def Part.andNext (c : Cfg) (mmid : ℕ) (p : Part) : Option Part :=
  match p.rest with
  | none => some p
  | some r => (p.desk.resume c mmid r).map fun next => { next with out := p.out ++ next.out }

/-- One message to a light, where nothing comes in between the parts of its handler.  There are
    at most three. -/
def Desk.handle (c : Cfg) (mmid : ℕ) (d : Desk) (m : Msg) : Option (Desk × List Out) :=
  (d.start c mmid m).bind fun p =>
    (p.andNext c mmid).bind fun p => (p.andNext c mmid).map fun p => (p.desk, p.out)

/-! ### The lights of a side -/

/-- The lights, by `mmid`, with the `QCoord` and the position they share. -/
structure Bank where
  lights : ℕ → Light
  qcoord : QCoord := {}
  position : ℤ := 0

/-- A message and the light it is for. -/
structure Event where
  mmid : ℕ
  msg : Msg

/-- One message, handled to its end. -/
def step (c : ℕ → Cfg) (s : Bank) (e : Event) : Option (Bank × List (ℕ × Out)) :=
  (Desk.handle (c e.mmid) e.mmid ⟨s.lights e.mmid, s.qcoord, s.position⟩ e.msg).map fun (d, o) =>
    ({ lights := Function.update s.lights e.mmid d.light, qcoord := d.qcoord
       position := d.position }, o.map fun x => (e.mmid, x))

end KasparHft.Light22
