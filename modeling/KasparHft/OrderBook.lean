import KasparHft.Ladder
import KasparHft.MarketData
import Mathlib.Algebra.Ring.Int.Defs
import Mathlib.Data.List.Sort
import Mathlib.Logic.Function.Basic

/-!
# The order book

`add`, `mod`, `fill` and `clear` of `OB.cpp`, with `OrderQ.hpp` and `Order.hpp`: a book of
queues, one for each side and price, that holds the exchange's orders and, in simulation,
our own among them.  An order is ours when its id is of the venue `SIM`.  `best_bid` and
`best_ask` are the best levels of the exchange's orders and are kept by increments.

`do_cross_check` tells simulation (true) from live (false).  `none` is an abort.  A queue is
the list of its orders from head to tail; ids are fresh, so the index `qordermap` is a
search, and `get_orders_in_book` is the sum it asserts.  The debug flag is off, and
`maxpx` of the reference data is the constructor's `maxprice` throughout.
-/

namespace KasparHft.OB

open Ladder

/-- `frame::ob::Order`; the flags `deleted`, `cancelled` and `filled` are set on orders that
    have left their queue. -/
structure Order where
  tim : ℕ
  id : LongId
  exordid : ℕ
  side : Side
  sz : ℤ
  originator : Option ℕ
  owner : ℕ
deriving DecidableEq, Repr

/-- The venue of one of our own orders. -/
def isSim (id : LongId) : Bool := id.exchid == xSIM

/-- `Order::issim`. -/
def Order.isSim (o : Order) : Bool := OB.isSim o.id

/-- What the book tells others: through the return path to an order's originator, to the
    best-price subscribers, to the data subscribers. -/
inductive Note where
  | fill (dest id venue : ℕ) (px : ℤ) (side : Side) (sz stillToBeFilled : ℤ) (owner tim : ℕ)
  | cancAck (dest id : ℕ) (fillsz sz : ℤ)
  | cancReject (dest id : ℕ)
  | bbboChg (txTime venue : ℕ) (side : Side) (bestBid bestAsk : ℤ)
  | clear
deriving DecidableEq, Repr

/-- `en::ot`. -/
inductive Ot where
  | limit | uni
deriving DecidableEq, Repr

/-- `maxpx` of the asset, as the constructor asserts it, and `do_cross_check`. -/
structure Cfg where
  maxprice : ℤ
  one_lt_maxprice : 1 < maxprice
  doCrossCheck : Bool

/-! ### Queues -/

/-- `isempty_or_allsim`. -/
def emptyOrAllSim (q : List Order) : Bool := q.all Order.isSim

/-- `get_orders_in_book`. -/
def ordersInBook (q : List Order) : ℤ := ((q.filter fun o => !o.isSim).map Order.sz).sum

/-- `new Order`, whose constructor checks the size. -/
def newOrder (o : Order) : Option Order := if 0 < o.sz ∧ o.sz < chopinMaxOrdSz then some o else none

/-- `Order::fill_notify`. -/
def Order.fillNotify (o : Order) (sz px : ℤ) (tim : ℕ) : Option (Order × Note) :=
  match o.originator with
  | none => none
  | some dest =>
      if o.isSim ∧ 0 < sz ∧ min sz o.sz = sz then
        let o' := { o with sz := if sz ≤ o.sz then o.sz - sz else 0 }
        some (o', .fill dest o.id.id o.id.exchid px o.side (min sz o.sz) o'.sz o.owner tim)
      else none

/-- `OB::fill` with `OrderQ::fill_notify`, on the orders of a queue from the one to fill
    towards the head: what is left after it is filled goes to our order before it. -/
def fill (px : ℤ) (tim : ℕ) : List Order → ℤ → Option (List Order × List Note)
  | [], _ => some ([], [])
  | s :: prev, sz =>
      if min s.sz sz ≤ 0 ∨ s.isSim = false ∨ tim = 0 then none
      else if s.sz ≤ sz then
        -- this order is smaller than what traded: fill it entirely
        match s.fillNotify s.sz px tim with
        | none => none
        | some (_, n) =>
            if 0 < sz - s.sz ∧ prev.head?.any Order.isSim then
              (fill px tim prev (sz - s.sz)).map fun r => (r.1, n :: r.2)
            else some (prev, [n])
      else
        match s.fillNotify sz px tim with
        | none => none
        | some (s', n) => if 0 < s'.sz then some (s' :: prev, [n]) else none

/-- `OrderQ::canc_notify` with `Order::canc_notify`: what is left of the order, if anything,
    and the acknowledgement to its originator. -/
def Order.cancNotify (o : Order) (dispSz : ℤ) (modtyp : Mt) : Option (Option Order × List Note) :=
  if dispSz < 0 ∨ o.sz ≤ 0 then none
  else
    let sz' : Option ℤ :=
      match modtyp with
      | .cancd => some 0
      | .canc => if 0 < dispSz then some dispSz else none
      | _ => none
    sz'.bind fun sz' =>
      let left := if sz' = 0 ∨ modtyp = .cancd then none else some { o with sz := sz' }
      match o.originator with
      | none => some (left, [])
      | some dest =>
          if o.isSim then some (left, [.cancAck dest o.id.id (o.sz - sz') sz']) else none

/-! ### The book -/

/-- The members `add`, `mod` and `clear` act on. -/
structure Book where
  bidqs : ℤ → List Order := fun _ => []
  askqs : ℤ → List Order := fun _ => []
  bestBid : ℤ
  bestAsk : ℤ
  lastBboNotifyTim : ℕ := 0
  numCrossRecover : ℕ := 0
  bbboSubs : Bool := false

/-- The book as the constructor leaves it. -/
def Book.new (cfg : Cfg) : Book := { bestBid := 0, bestAsk := cfg.maxprice - 1 }

/-- `qv`: the queues of a side. -/
def Book.qs (b : Book) : Side → ℤ → List Order
  | .buy => b.bidqs
  | .sel => b.askqs

def Book.setQs (b : Book) (side : Side) (qs : ℤ → List Order) : Book :=
  match side with
  | .buy => { b with bidqs := qs }
  | .sel => { b with askqs := qs }

/-- Replace one queue. -/
def Book.setQ (b : Book) (side : Side) (px : ℤ) (q : List Order) : Book :=
  b.setQs side (Function.update (b.qs side) px q)

/-- `notifybbbosubs`: at most one notification in 100 ms, none of a locked or crossed book.
    `BBBOChg` asserts its transaction time. -/
def Book.notifybbbosubs (b : Book) (txtim : ℕ) (side : Side) (venue : ℕ) :
    Option (Book × List Note) :=
  if b.lastBboNotifyTim ≠ 0 ∧
      (txtim + 2 ^ 64 - b.lastBboNotifyTim) % 2 ^ 64 < 100000000 then some (b, [])
  else if b.bestAsk ≤ b.bestBid then some (b, [])
  else if b.bbboSubs = false then some ({ b with lastBboNotifyTim := txtim }, [])
  else if txtim = 0 then none
  else
    some ({ b with lastBboNotifyTim := txtim },
      [.bbboChg txtim venue side b.bestBid b.bestAsk])

/-! ### `add` -/

/-- The arguments of `add`. -/
structure AddArgs where
  txtim : ℕ
  id : LongId
  side : Side
  px : ℤ
  sz : ℤ
  sender : Option ℕ
  ot : Ot
  owner : ℕ
  exordid : ℕ
  venue : ℕ

/-- The order `add` makes. -/
def AddArgs.order (a : AddArgs) : Order :=
  { tim := a.txtim, id := a.id, exordid := a.exordid, side := a.side, sz := a.sz
    originator := a.sender, owner := a.owner }

/-- The price at which `fill_sim_on_arrival` fills one of our orders. -/
def Book.arrivalPx (b : Book) (side : Side) (px : ℤ) : Option ℤ :=
  match side with
  | .buy => if b.bestAsk ≤ px ∧ b.bestBid < b.bestAsk then some b.bestAsk else none
  | .sel => if px ≤ b.bestBid ∧ b.bestBid < b.bestAsk then some b.bestBid else none

/-- One queue of `fill_stray_sim_orders`: our orders of the contra side are filled, and in
    live the exchange's are cancelled; these are counted. -/
def sweepQ (cfg : Cfg) (contra : Side) (px : ℤ) (tim : ℕ) :
    List Order → Option (List Order × List Note × ℕ)
  | [] => some ([], [], 0)
  | o :: os =>
      if o.isSim ∧ o.side = contra then
        match fill px tim [o] o.sz, sweepQ cfg contra px tim os with
        | some (left, n), some (os', n', c) => some (left ++ os', n ++ n', c)
        | _, _ => none
      else if cfg.doCrossCheck = false ∧ o.isSim = false ∧ o.side = contra then
        match o.cancNotify 0 .cancd, sweepQ cfg contra px tim os with
        | some (left, n), some (os', n', c) => some (left.toList ++ os', n ++ n', c + 1)
        | _, _ => none
      else (sweepQ cfg contra px tim os).map fun r => (o :: r.1, r.2.1, r.2.2)

/-- The loops of `fill_stray_sim_orders`: `n` levels from `p` in direction `d`, unless
    `stop` ends them.  A level that is not an index of the queues aborts. -/
def sweep (cfg : Cfg) (contra : Side) (d : ℤ) (stop : ℤ → Bool) (tim : ℕ) :
    ℕ → ℤ → (ℤ → List Order) → Option ((ℤ → List Order) × List Note × ℕ)
  | 0, _, qs => some (qs, [], 0)
  | n + 1, p, qs =>
      if p < 0 ∨ cfg.maxprice + 2 ≤ p then none
      else
        match sweepQ cfg contra p tim (qs p) with
        | none => none
        | some (q, notes, c) =>
            let qs := Function.update qs p q
            if stop (p + d) then some (qs, notes, c)
            else (sweep cfg contra d stop tim n (p + d) qs).map fun r =>
              (r.1, notes ++ r.2.1, c + r.2.2)

/-- `fill_stray_sim_orders`, on the add of a real order.  The range is widened in live. -/
def Book.fillStraySimOrders (cfg : Cfg) (b : Book) (side : Side) (px : ℤ) (txtim : ℕ) :
    Option (Book × List Note × ℕ) :=
  let swept :=
    match side with
    | .buy =>
        if b.bestBid < px ∨ (cfg.doCrossCheck = false ∧ b.bestAsk ≤ px) then
          let start := if cfg.doCrossCheck then b.bestBid else min b.bestBid b.bestAsk
          sweep cfg .sel 1 (fun p => cfg.maxprice ≤ p) txtim (px - start + 1).toNat start b.askqs
        else some (b.askqs, [], 0)
    | .sel =>
        if px < b.bestAsk ∨ (cfg.doCrossCheck = false ∧ px ≤ b.bestBid) then
          let start := if cfg.doCrossCheck then b.bestAsk else max b.bestAsk b.bestBid
          sweep cfg .buy (-1) (fun p => p ≤ 0) txtim (start - px + 1).toNat start b.bidqs
        else some (b.bidqs, [], 0)
  swept.map fun r =>
    ({ b.setQs side.other r.1 with numCrossRecover := b.numCrossRecover + r.2.2 }, r.2)

/-- `check_for_bo_change`.  `uncrossed` counts the orders the sweep cancelled. -/
def Book.checkForBoChange (cfg : Cfg) (b : Book) (side : Side) (px : ℤ) (txtim venue : ℕ)
    (uncrossed : ℕ) : Option (Book × List Note) :=
  match side with
  | .buy =>
      let bbchg : Bool := b.bestBid < px
      let bb := if b.bestBid < px then px else b.bestBid
      if cfg.doCrossCheck = false ∧ (uncrossed ≠ 0 ∨ b.bestAsk ≤ bb) then
        let hi := cfg.maxprice + 1
        if b.bestAsk < 0 ∨ hi < b.bestAsk then none
        else
          let ba := walk (fun p => emptyOrAllSim (b.askqs p)) 1 (hi - b.bestAsk).toNat b.bestAsk
          let b' := { b with bestBid := bb, bestAsk := ba }
          let askIsReal := !emptyOrAllSim (b.askqs ba)
          if (bbchg ∨ ba ≠ b.bestAsk) ∧ 0 < bb ∧ 0 < ba ∧ askIsReal then
            b'.notifybbbosubs txtim (if bbchg then .buy else .sel) venue
          else some (b', [])
      else
        let b' := { b with bestBid := bb }
        if bbchg ∧ 0 < bb ∧ 0 < b.bestAsk then b'.notifybbbosubs txtim .buy venue
        else some (b', [])
  | .sel =>
      let bochg : Bool := px < b.bestAsk
      let ba := if px < b.bestAsk then px else b.bestAsk
      if cfg.doCrossCheck = false ∧ (uncrossed ≠ 0 ∨ ba ≤ b.bestBid) then
        if b.bestBid < 0 ∨ cfg.maxprice + 2 ≤ b.bestBid then none
        else
          let bb := walk (fun p => emptyOrAllSim (b.bidqs p)) (-1) (b.bestBid - 1).toNat b.bestBid
          let b' := { b with bestBid := bb, bestAsk := ba }
          let bidIsReal := !emptyOrAllSim (b.bidqs bb)
          if (bochg ∨ bb ≠ b.bestBid) ∧ 0 < bb ∧ 0 < ba ∧ bidIsReal then
            b'.notifybbbosubs txtim (if bb ≠ b.bestBid then .buy else .sel) venue
          else some (b', [])
      else
        let b' := { b with bestAsk := ba }
        if bochg ∧ 0 < b.bestBid ∧ 0 < ba then b'.notifybbbosubs txtim .sel venue
        else some (b', [])

/-- The end of `add`: the order goes to the tail of its queue. -/
def Book.append (b : Book) (a : AddArgs) : Option Book :=
  (newOrder a.order).map fun o => b.setQ a.side a.px (b.qs a.side a.px ++ [o])

/-- `add`.  `currtim` is the book's clock. -/
def Book.add (cfg : Cfg) (currtim : ℕ) (b : Book) (a : AddArgs) : Option (Book × List Note) :=
  if isSim a.id ∧ (a.sender = none ∨ currtim = 0) then none
  else if cfg.maxprice ≤ a.px then some (b, [])
  else if a.sz ≤ 0 then none
  else if isSim a.id then
    if a.ot ≠ .limit then none
    else
      match b.arrivalPx a.side a.px with
      | some px =>
          (newOrder a.order).bind fun o =>
            (o.fillNotify a.sz px a.txtim).map fun r => (b, [r.2])
      | none => (b.append a).map fun b => (b, [])
  else
    (b.fillStraySimOrders cfg a.side a.px a.txtim).bind fun r =>
      (r.1.checkForBoChange cfg a.side a.px a.txtim a.venue r.2.2).bind fun r' =>
        (r'.1.append a).map fun b => (b, r.2.1 ++ r'.2)

/-! ### `mod` -/

/-- The arguments of `mod`. -/
structure ModArgs where
  sender : Option ℕ
  txtim : ℕ
  id : LongId
  modtyp : Mt
  side : Side
  px : ℤ
  sz : ℤ
  dispSz : ℤ
  mkt : ℕ
  exordid : ℕ

/-- `mod_order_that_is_not_found`. -/
def notFound (a : ModArgs) : Option (List Note) :=
  if isSim a.id then
    if a.modtyp = .canc ∨ a.modtyp = .cancd then
      a.sender.map fun dest => [.cancReject dest a.id.id]
    else none
  else if a.modtyp = .execd then none
  else some []

/-- `do_exec`: when the executed order is the first real one, our orders before it are
    filled from the nearest on. -/
def doExec (q : List Order) (a : ModArgs) : Option (List Order × List Note) :=
  let ahead := q.takeWhile Order.isSim
  let rest := q.dropWhile Order.isSim
  if rest.head?.any (fun o => o.id == a.id) ∧ ahead ≠ [] then
    (fill a.px a.txtim ahead.reverse a.sz).map fun r => (r.1.reverse ++ rest, r.2)
  else some (q, [])

/-- `do_canc` on the order `o` of the queue. -/
def doCanc (q : List Order) (o : Order) (a : ModArgs) : Option (List Order × List Note) :=
  (o.cancNotify a.dispSz a.modtyp).map fun r =>
    match r.1 with
    | none => (q.filter fun o' => o'.id != o.id, r.2)
    | some o' => (q.map fun x => if x.id = o.id then o' else x, r.2)

/-- What `mod` does to the queue of the order it has found. -/
def modQ (q : List Order) (o : Order) (a : ModArgs) : Option (List Order × List Note) :=
  match a.modtyp with
  | .exec => if 0 < a.sz ∧ isSim a.id = false then doExec q a else none
  | .canc => doCanc q o a
  | .cancd => doCanc q o a
  | .execd => none
  | _ => some (q, [])

/-- The end of `mod` on a real order: the best price of its side walks off levels that no
    longer hold a real order. -/
def Book.adjust (cfg : Cfg) (b : Book) (side : Side) (px : ℤ) (txtim mkt : ℕ) :
    Option (Book × List Note) :=
  match side with
  | .buy =>
      let bb :=
        if px ≤ b.bestBid then
          walk (fun p => emptyOrAllSim (b.bidqs p)) (-1) (b.bestBid - 1).toNat b.bestBid
        else b.bestBid
      let b' := { b with bestBid := bb }
      if bb ≠ b.bestBid ∧ 0 < bb ∧ 0 < b.bestAsk then b'.notifybbbosubs txtim .buy mkt
      else some (b', [])
  | .sel =>
      let ba :=
        if b.bestAsk ≤ px then
          walk (fun p => emptyOrAllSim (b.askqs p)) 1 (cfg.maxprice - 1 - b.bestAsk).toNat b.bestAsk
        else b.bestAsk
      let b' := { b with bestAsk := ba }
      if ba ≠ b.bestAsk ∧ 0 < b.bestBid ∧ 0 < ba then b'.notifybbbosubs txtim .sel mkt
      else some (b', [])

/-- `mod`. -/
def Book.mod (cfg : Cfg) (b : Book) (a : ModArgs) : Option (Book × List Note) :=
  if a.id = ⟨0, 0⟩ ∨ chopinMaxOrdSz ≤ a.sz ∨ (a.modtyp ≠ .cancd ∧ a.sz < 0) then none
  else if cfg.maxprice ≤ a.px then some (b, [])
  else if isSim a.id ∧ a.sender = none then none
  else
    let q := b.qs a.side a.px
    match q.find? fun o => o.id == a.id with
    | none => (notFound a).map fun n => (b, n)
    | some o =>
        (modQ q o a).bind fun r =>
          let b := b.setQ a.side a.px r.1
          if isSim a.id then some (b, r.2)
          else (b.adjust cfg a.side a.px a.txtim a.mkt).map fun r' => (r'.1, r.2 ++ r'.2)

/-! ### `clear` -/

/-- `canc_notify_all`: the orders of a queue are cancelled in the order of their ids. -/
def cancNotifyAll (q : List Order) : Option (List Note) :=
  let byId := List.insertionSort (fun o o' : Order =>
    o.id.exchid < o'.id.exchid ∨ (o.id.exchid = o'.id.exchid ∧ o.id.id ≤ o'.id.id)) q
  (byId.mapM fun o : Order => (o.cancNotify 0 .cancd).map Prod.snd).map List.flatten

/-- `clear`. -/
def Book.clear (cfg : Cfg) (b : Book) : Option (Book × List Note) :=
  let levels := (List.range (cfg.maxprice + 2).toNat).map fun i : ℕ => (i : ℤ)
  (levels.mapM fun p => cancNotifyAll (b.bidqs p)).bind fun bids =>
    (levels.mapM fun p => cancNotifyAll (b.askqs p)).map fun asks =>
      ({ b with
          bidqs := fun _ => [], askqs := fun _ => [], bestBid := 0
          bestAsk := cfg.maxprice - 1 },
        .clear :: (bids.flatten ++ asks.flatten))

/-! ### Calls -/

/-- The calls of `process_add_or_mod`. -/
inductive Call where
  | add (currtim : ℕ) (a : AddArgs)
  | mod (a : ModArgs)
  | clear

/-- One call. -/
def step (cfg : Cfg) (b : Book) : Call → Option (Book × List Note)
  | .add currtim a => b.add cfg currtim a
  | .mod a => b.mod cfg a
  | .clear => b.clear cfg

end KasparHft.OB
