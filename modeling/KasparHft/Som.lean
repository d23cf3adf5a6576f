import KasparHft.AssocMap
import KasparHft.Machine
import KasparHft.Position
import Mathlib.Logic.Function.Basic

/-!
# The order manager

`frame/som/act/SOM`: clients send it orders and cancels, it checks limits, hands out
order ids, forwards to a simulated book or to a venue's order manager, and passes the
venue's acks, fills, cancel acks and rejects back.

An actor is a number.  A handler takes the state and a message to the next state and
the messages sent; `none` is an abort (`ASSERT`, `SNGH`, a null dereference).  Order ids
are `uint`, an order's own `oid` is `int`, as in the source; sizes are `double` there and
rationals here, converted by `toInt` where the source converts to `int`.  Stashing is
compiled out (`DISABLE_STASHING`), as are working orders in the limit check.
-/

namespace KasparHft.Som

open AssocMap Pos

/-- `double` to `int`: the fraction is dropped. -/
def toInt (q : ℚ) : ℤ :=
  q.num.tdiv q.den

/-- `CHOPIN_MAX_ORD_SZ`. -/
def maxOrdSz : ℚ := 10000000

/-- `OrderID::longid`. -/
def longid (exchid : ℕ) (oid : UInt32) : ℕ :=
  exchid * 2 ^ 32 + oid.toNat

/-- `en::x::SIM`. -/
def simVenue : ℕ := 18

/-! ### Messages -/

/-- `msg::Order`, with the actor that sent it. -/
structure Order where
  ts : ℕ := 0
  venue : ℕ
  sym : ℕ
  sz : ℚ
  px : ℤ
  stillToBeFilled : ℤ
  oid : Int32 := -1
  side : Side
  owner : ℕ
  orderRef : ℕ := 0
  oidToCancel : Int32 := -1
  filled : Bool := false
  canced : Bool := false
  rejed : Bool := false
  acked : Bool := false
  unackedSlatedForCanc : Bool := false
  sender : ℕ
deriving DecidableEq

/-- `msg::Fill`; `px` is the price as `to_int` gives it. -/
structure Fill where
  id : UInt32
  venue : ℕ
  sym : ℕ
  px : ℤ
  side : Side
  sz : ℚ
  stillToBeFilled : ℚ
  owner : ℕ
  tim : ℕ
deriving DecidableEq

/-- The simulated order or cancel placed on a book (`data_pay_load` as the order manager
    fills it): `MOD` with action `CANCD` when `isCancel`, else `ADD`. -/
structure BookData where
  sym : ℕ
  px : ℤ
  sz : ℤ
  dispSz : ℤ
  side : Side
  orderRef : ℕ
  isCancel : Bool
  owner : ℕ
  ts0 : ℕ
deriving DecidableEq

/-- `Reject::OVERLIMIT`. -/
def rejectOverlimit : ℤ := 1

/-- The reasons of `CancReject` the order manager itself gives. -/
def filledAlready : ℤ := 1

def cancelledAlready : ℤ := 2

def rejectedPreviously : ℤ := 3

def cancRejectUnknown : ℤ := 12

/-- The default `ord_status` of a `CancReject`. -/
def ordStatusDefault : ℤ := 99

/-- What the order manager sends. -/
inductive Msg where
  | ack (id : UInt32)
  | reject (id : UInt32) (reason : ℤ)
  | cancReject (id : UInt32) (reason ordStatus : ℤ)
  | cancAck (id : UInt32) (fillsz sz : ℤ)
  | fill (f : Fill)
  | order (o : Order)
  | cancel (id : UInt32) (ts orderRef : ℕ)
  | bookData (d : BookData)
  | exitPos (venu : ℕ)
  | page
deriving DecidableEq

/-- A message and the actor it goes to. -/
structure Sent where
  dest : ℕ
  msg : Msg
deriving DecidableEq

/-- What the order manager receives.  `readLimits` and `cancAll` are the console commands;
    the former carries the limits the configuration file then gives. -/
inductive Event where
  | order (m : Order)
  | cancel (id : UInt32) (ts : ℕ)
  | cancAck (id : UInt32) (fillsz sz : ℤ)
  | cancReject (id : UInt32) (reason ordStatus : ℤ)
  | ack (id : UInt32)
  | reject (id : UInt32) (reason : ℤ)
  | fill (f : Fill)
  | fillSub (sender : ℕ)
  | stop
  | start
  | exitPos (venu : ℕ)
  | setExchManager (venue : ℕ) (manager : Option ℕ)
  | cancAll (sender : ℕ)
  | readLimits (sender : ℕ) (posLimit sizeLimit : ℕ → ℤ)
  | positionResponse (trader sym : ℕ) (position : ℤ)

/-! ### State -/

/-- What is fixed when an order manager is built. -/
structure Cfg where
  simMode : Bool
  numAssets : ℕ
  isCusipAsset : ℕ → Bool
  orderBooks : ℕ → ℕ → Option ℕ
  self : ℕ

/-- `allow_unacked_cancels`, a constant of the source. -/
def allowUnackedCancels : Bool := true

/-- The members of `SOM` that change. -/
structure State where
  currId : UInt32
  orders : Map UInt32 Order := ∅
  subs : List ℕ := []
  orderManagers : ℕ → Option ℕ := fun _ => none
  posLimit : ℕ → ℤ
  sizeLimit : ℕ → ℤ
  pos : ℕ → ℕ → Position := fun _ _ => {}
  stopped : Bool := false

/-- The constructor: ids start at `venue * 1000000`. -/
def State.new (venue : ℕ) (posLimit sizeLimit : ℕ → ℤ) : State where
  currId := UInt32.ofNat (venue * 1000000)
  posLimit := posLimit
  sizeLimit := sizeLimit

/-- `get_pos`. -/
def State.getPos (s : State) (sym trader : ℕ) : Option ℤ :=
  (s.pos trader sym).totalSize

def State.setPos (s : State) (trader sym : ℕ) (p : Position) : State :=
  { s with pos := Function.update s.pos trader (Function.update (s.pos trader) sym p) }

/-! ### Cancelling -/

/-- The message `cancel_order` places on a simulated book. -/
def cancelData (id : UInt32) (o : Order) (cancTs : ℕ) : BookData where
  sym := o.sym
  px := o.px
  sz := toInt o.sz
  dispSz := 0
  side := o.side
  orderRef := longid simVenue id
  isCancel := true
  owner := 0
  ts0 := cancTs

/-- `cancel_order`. -/
def State.cancelOrder (c : Cfg) (s : State) (id : UInt32) (ord : Order) (cancTs : ℕ) :
    Option (List Sent) :=
  if ord.filled then some [⟨ord.sender, .cancReject id filledAlready ordStatusDefault⟩]
  else if ord.canced then
    some [⟨ord.sender, .cancReject id cancelledAlready ordStatusDefault⟩]
  else if ord.rejed then
    some [⟨ord.sender, .cancReject id rejectedPreviously ordStatusDefault⟩]
  else if c.simMode then
    (c.orderBooks ord.venue ord.sym).map fun book =>
      [⟨book, .bookData (cancelData id ord cancTs)⟩]
  else
    match s.orderManagers ord.venue with
    | none => some []
    | some om => some [⟨om, .cancel id cancTs (longid ord.venue id)⟩]

/-- The loop of `cancel_all_orders`. -/
def State.cancelEach (c : Cfg) (s : State) : List (Sigma fun _ : UInt32 => Order) →
    Option (List Sent)
  | [] => some []
  | ⟨k, order⟩ :: rest =>
      if order.filled || order.canced || order.rejed then s.cancelEach c rest
      else
        match s.cancelOrder c k order 0 with
        | none => none
        | some o => (s.cancelEach c rest).map (o ++ ·)

/-- `cancel_all_orders`. -/
def State.cancelAllOrders (c : Cfg) (s : State) : Option (List Sent) :=
  s.cancelEach c s.orders.entries

/-- `internal_reject`: the order to cancel, or `none` when the cancel was rejected here. -/
def State.internalReject (c : Cfg) (s : State) (id : UInt32) :
    State × List Sent × Option Order :=
  match s.orders.lookup id with
  | none => (s, [], none)
  | some order =>
      if order.filled then
        (s, [⟨order.sender, .cancReject id filledAlready ordStatusDefault⟩], none)
      else if order.canced then
        (s, [⟨order.sender, .cancReject id cancelledAlready ordStatusDefault⟩], none)
      else if order.rejed then
        (s, [⟨order.sender, .cancReject id rejectedPreviously ordStatusDefault⟩], none)
      else if !c.simMode && !allowUnackedCancels && !order.acked then
        let order := { order with unackedSlatedForCanc := true }
        ({ s with orders := s.orders.insert id order }, [], some order)
      else (s, [], some order)

/-- `canc_handler`. -/
def State.cancHandler (c : Cfg) (s : State) (id : UInt32) (ts : ℕ) :
    Option (State × List Sent) :=
  match s.internalReject c id with
  | (s, o, none) => some (s, o)
  | (s, o, some ord) => (s.cancelOrder c id ord ts).map fun o' => (s, o ++ o')

/-! ### New orders -/

/-- The limit check of `order_handler` for an order of a checked asset. -/
def State.overLimit (s : State) (m : Order) (currentPos : ℤ) : Bool :=
  let workingSz : ℤ := 0
  let overPos : Bool := match m.side with
    | .buy => 0 ≤ s.posLimit m.sym &&
        decide ((s.posLimit m.sym : ℚ) < currentPos + workingSz + m.sz)
    | .sel => 0 ≤ s.posLimit m.sym &&
        decide ((currentPos : ℚ) - workingSz - m.sz < -s.posLimit m.sym)
  overPos || (0 ≤ s.sizeLimit m.sym && decide ((s.sizeLimit m.sym : ℚ) < m.sz))

/-- Whether `order_handler` rejects the order for a limit; cusip assets are not checked. -/
def State.checkLimit (c : Cfg) (s : State) (m : Order) : Option Bool :=
  if c.isCusipAsset m.sym then some false
  else (s.getPos m.sym m.owner).map (s.overLimit m)

/-- An order without an id takes the next one and is stored. -/
def State.assignId (s : State) (m : Order) : State × Order :=
  if m.oid < 0 then
    let m := { m with oid := s.currId.toInt32 }
    ({ s with currId := s.currId + 1, orders := s.orders.insert m.oid.toUInt32 m }, m)
  else (s, m)

/-- The cancel-replace part: the replaced order is cancelled here in simulation only; when
    there is nothing to cancel the order becomes a regular one. -/
def State.cancReplace (c : Cfg) (s : State) (m : Order) :
    Option (State × Order × List Sent) :=
  if m.oidToCancel < 0 then some (s, m, [])
  else
    match s.internalReject c m.oidToCancel.toUInt32 with
    | (s, o, none) => some (s, { m with oidToCancel := -1 }, o)
    | (s, o, some ord) =>
        if c.simMode then
          (s.cancelOrder c m.oidToCancel.toUInt32 ord m.ts).map fun o' => (s, m, o ++ o')
        else some (s, m, o)

/-- The message that places an order on a simulated book. -/
def addData (m : Order) : BookData where
  sym := m.sym
  px := m.px
  sz := toInt m.sz
  dispSz := toInt m.sz
  side := m.side
  orderRef := longid simVenue m.oid.toUInt32
  isCancel := false
  owner := m.owner
  ts0 := m.ts

/-- The order as it is sent on to a venue's manager. -/
def Order.forwarded (m : Order) : Order :=
  { m with orderRef := longid m.venue m.oid.toUInt32 }

/-- The last part of `order_handler`: reject while stopped, else forward. -/
def State.placeOrder (c : Cfg) (s : State) (m : Order) : Option (State × List Sent) :=
  let id := m.oid.toUInt32
  if s.stopped then
    -- the source passes `true` for the reason
    some (s, [⟨m.sender, .reject id rejectOverlimit⟩])
  else if c.simMode then
    (c.orderBooks m.venue m.sym).map fun book => (s, [⟨book, .bookData (addData m)⟩])
  else
    match s.orderManagers m.venue with
    | none => some (s, [])
    | some om =>
        some ({ s with orders := s.orders.insert id m.forwarded }, [⟨om, .order m.forwarded⟩])

/-- The part of `order_handler` for an order within limits. -/
def State.acceptOrder (c : Cfg) (s : State) (m : Order) : Option (State × List Sent) :=
  let (s₁, m₁) := s.assignId m
  match s₁.cancReplace c m₁ with
  | none => none
  | some (s₂, m₂, o₂) =>
      (s₂.placeOrder c m₂).map fun r =>
        (r.1, ⟨m.sender, .ack m₁.oid.toUInt32⟩ :: (o₂ ++ r.2))

/-- `order_handler`. -/
def State.orderHandler (c : Cfg) (s : State) (m : Order) : Option (State × List Sent) :=
  if m.sz ≤ 0 ∨ maxOrdSz ≤ m.sz ∨ c.numAssets ≤ m.sym then none
  else
    match s.checkLimit c m with
    | none => none
    | some true =>
        some (s, [⟨m.sender, .ack s.currId⟩, ⟨m.sender, .reject s.currId rejectOverlimit⟩])
    | some false => s.acceptOrder c m

/-! ### Messages from the venue -/

/-- `canc_ack_handler`. -/
def State.cancAckHandler (c : Cfg) (s : State) (id : UInt32) (fillsz sz : ℤ) :
    Option (State × List Sent) :=
  match s.orders.lookup id with
  | none => some (s, [])
  | some order =>
      let o : List Sent :=
        if order.sender = c.self then [] else [⟨order.sender, .cancAck id fillsz sz⟩]
      if sz ≤ 0 then some ({ s with orders := s.orders.erase id }, o) else some (s, o)

/-- `canc_rej_handler`; building a `CancReject` without a reason aborts. -/
def State.cancRejHandler (c : Cfg) (s : State) (id : UInt32) (reason ordStatus : ℤ) :
    Option (State × List Sent) :=
  match s.orders.lookup id with
  | none => some (s, [])
  | some order =>
      if order.sender = c.self then none
      else if order.filled then
        some (s, [⟨order.sender, .cancReject id filledAlready ordStatusDefault⟩])
      else if order.canced then
        some (s, [⟨order.sender, .cancReject id cancelledAlready ordStatusDefault⟩])
      else if order.rejed then
        some (s, [⟨order.sender, .cancReject id rejectedPreviously ordStatusDefault⟩])
      else if reason = cancRejectUnknown then none
      else some (s, [⟨order.sender, .cancReject id reason ordStatus⟩])

/-- `ack_handler`: the order must be known; a cancel that waited for it goes out. -/
def State.ackHandler (c : Cfg) (s : State) (id : UInt32) : Option (State × List Sent) :=
  match s.orders.lookup id with
  | none => none
  | some order =>
      let order := { order with acked := true }
      let s := { s with orders := s.orders.insert id order }
      if order.unackedSlatedForCanc then
        if order.canced then some (s, [])
        else if order.oid.toUInt32 ≠ id then none
        else (s.cancelOrder c id order 0).map fun o => (s, o)
      else some (s, [])

/-- `rej_handler`. -/
def State.rejHandler (s : State) (id : UInt32) (reason : ℤ) : Option (State × List Sent) :=
  match s.orders.lookup id with
  | none => some (s, [])
  | some ord =>
      some ({ s with orders := s.orders.erase id }, [⟨ord.sender, .reject id reason⟩])

/-- The order after a fill: what is left comes from the fill. -/
def Order.afterFill (ord : Order) (f : Fill) : Order :=
  { ord with
    filled := ord.filled || decide (f.stillToBeFilled ≤ 1 / 10000000)
    stillToBeFilled := toInt f.stillToBeFilled }

/-- `fill_handler`: a fill of an order that is not in the map is logged and dropped. -/
def State.fillHandler (c : Cfg) (s : State) (f : Fill) : Option (State × List Sent) :=
  if f.tim = 0 ∨ f.sz ≤ 0 ∨ c.numAssets ≤ f.sym then none
  else
    match s.orders.lookup f.id with
    | none => some (s, [])
    | some ord =>
        if ord.canced then none
        else
          let f' := { f with venue := ord.venue }
          ((s.pos f.owner f.sym).addToPosition ⟨f.side, f.px, toInt f.sz⟩).map fun p =>
            (({ s with orders := s.orders.insert f.id (ord.afterFill f) }).setPos f.owner f.sym p,
              ⟨ord.sender, .fill f'⟩ :: s.subs.map fun sub => ⟨sub, .fill f'⟩)

/-- `exit_handler`: not available in simulation; the venue must have a manager. -/
def State.exitHandler (c : Cfg) (s : State) (venu : ℕ) : Option (State × List Sent) :=
  if c.simMode then none
  else
    match s.cancelAllOrders c, s.orderManagers venu with
    | some o, some om => some ({ s with stopped := true }, o ++ [⟨om, .exitPos venu⟩])
    | _, _ => none

/-- `position_response_handler`: a stored position comes back as one entry at price 0. -/
def State.positionResponseHandler (s : State) (trader sym : ℕ) (position : ℤ) :
    Option (State × List Sent) :=
  if position = 0 then some (s, [])
  else
    let side : Side := if 0 < position then .buy else .sel
    ((s.pos trader sym).addToPosition ⟨side, 0, |position|⟩).map fun p =>
      (s.setPos trader sym p, [])

/-- One message. -/
def step (c : Cfg) (s : State) : Event → Option (State × List Sent)
  | .order m => s.orderHandler c m
  | .cancel id ts => s.cancHandler c id ts
  | .cancAck id fillsz sz => s.cancAckHandler c id fillsz sz
  | .cancReject id reason ordStatus => s.cancRejHandler c id reason ordStatus
  | .ack id => s.ackHandler c id
  | .reject id reason => s.rejHandler id reason
  | .fill f => s.fillHandler c f
  | .fillSub sender => some ({ s with subs := s.subs ++ [sender] }, [])
  | .stop => ({ s with stopped := true }.cancelAllOrders c).map fun o =>
      ({ s with stopped := true }, o)
  | .start => some ({ s with stopped := false }, [])
  | .exitPos venu => s.exitHandler c venu
  | .setExchManager venue manager =>
      some ({ s with orderManagers := Function.update s.orderManagers venue manager }, [])
  | .cancAll sender => (s.cancelAllOrders c).map fun o => (s, o ++ [⟨sender, .page⟩])
  | .readLimits sender posLimit sizeLimit =>
      some ({ s with posLimit := posLimit, sizeLimit := sizeLimit }, [⟨sender, .page⟩])
  | .positionResponse trader sym position => s.positionResponseHandler trader sym position

end KasparHft.Som
