import KasparHft.AssocMap
import KasparHft.LinkedList
import KasparHft.OrderBook

/-!
# The queue of a level

`OrderQ.hpp` with the part of `Order.hpp` it drives, as the pointers and counters they are:
orders on a heap, linked from `head` to `tail`, found by id through `qordermap`, with the
size and the number of the exchange's orders kept in `orders_in_book` and
`size_of_book_cnt`.  `OrderBook` reads a queue as the list of its orders.

`none` is an abort, or a read or write through a pointer that is null or whose order has
been deleted, or an overflow of an `int`.
-/

namespace KasparHft.OB

open AssocMap LinkedList

/-- `Order *`. -/
abbrev Ptr := ℕ

/-- An `Order` on the heap, with its flags. -/
structure Obj where
  order : Order
  deleted : Bool := false
  cancelled : Bool := false
  filled : Bool := false
deriving DecidableEq, Repr

/-- `int` arithmetic. -/
def int32 (x : ℤ) : Option ℤ := if -2 ^ 31 ≤ x ∧ x < 2 ^ 31 then some x else none

/-! ### `Order` -/

/-- `Order::fill_notify`. -/
def Obj.fillNotify (o : Obj) (sz dispSz px : ℤ) (modtyp : Mt) (tim : ℕ) : Option (Obj × Note) :=
  if (modtyp = .exec ∨ modtyp = .execd) ∧ o.cancelled = false ∧ dispSz ≤ 0 then
    (o.order.fillNotify sz px tim).map fun r : Order × Note =>
      ({ o with order := r.1, filled := o.filled || decide (r.1.sz ≤ 0) }, r.2)
  else none

/-- What `Order::canc_notify` leaves of the size.  The size asked for is only logged; `CANC`
    without a display size is an `ERR`. -/
def leftSz (dispSz : ℤ) (modtyp : Mt) : Option ℤ :=
  match modtyp with
  | .cancd => some 0
  | .canc => if 0 < dispSz then some dispSz else none
  | _ => none

/-- The `CancAck` to the originator of an order that is left with `sz`. -/
def Order.cancAck (o : Order) (sz : ℤ) : Option (List Note) :=
  match o.originator with
  | none => some []
  | some dest => if o.isSim then some [.cancAck dest o.id.id (o.sz - sz) sz] else none

/-- `Order::canc_notify`: the order, the size cancelled and the acknowledgement. -/
def Obj.cancNotify (o : Obj) (dispSz : ℤ) (modtyp : Mt) : Option (Obj × ℤ × List Note) :=
  if o.order.sz ≤ 0 ∨ o.filled = true then none
  else
    (leftSz dispSz modtyp).bind fun sz =>
      (o.order.cancAck sz).bind fun ack =>
        if sz < 0 ∨ dispSz < 0 then none
        else
          some ({ o with
              order := { o.order with sz := sz }
              cancelled := o.cancelled || decide (sz ≤ 0 ∧ dispSz ≤ 0 ∨ modtyp = .cancd) },
            o.order.sz - sz, ack)

/-! ### `OrderQ` -/

/-- `OrderQ`, and the heap its orders are on. -/
structure OrderQ where
  heap : Heap Ptr Obj := fun _ => none
  head : Option Ptr := none
  tail : Option Ptr := none
  qordermap : Map LongId Ptr := ∅
  sizeOfBookCnt : ℤ := 0
  ordersInBook : ℤ := 0

namespace OrderQ

/-- `ASSERT(tail->next == 0)` and `ASSERT(head->prev == 0)`. -/
def endsMeet (q : OrderQ) : Bool :=
  (q.tail.bind q.heap).any (fun nd => nd.next.isNone) &&
    (q.head.bind q.heap).any (fun nd => nd.prev.isNone)

/-- A new order. -/
def newNode (o : Order) (prev : Option Ptr) : Node Ptr Obj := ⟨⟨o, false, false, false⟩, prev, none⟩

/-- The two cases of `append`: the heap and the head with the order that `new` has put at `n`. -/
def linkLast (q : OrderQ) (n : Ptr) (o : Order) : Option (Heap Ptr Obj × Option Ptr) :=
  match q.head with
  | none =>
      if q.tail = none then some (Function.update q.heap n (some (newNode o none)), some n) else none
  | some head =>
      q.tail.bind fun tail =>
        (setNext (Function.update q.heap n (some (newNode o (some tail)))) tail (some n)).map
          fun heap => (heap, some head)

/-- `append`.  No order is at `n` before `new`. -/
def append (q : OrderQ) (n : Ptr) (o : Order) : Option OrderQ :=
  if (q.heap n).isSome ∨ o.sz ≤ 0 then none
  else
    (q.linkLast n o).bind fun l =>
      let q' :=
        { q with heap := l.1, head := l.2, tail := some n, qordermap := q.qordermap.insert o.id n }
      if q'.endsMeet = false then none
      else if o.isSim then some q'
      else
        (int32 (q.ordersInBook + o.sz)).bind fun sz =>
          (int32 (q.sizeOfBookCnt + 1)).map fun cnt =>
            { q' with ordersInBook := sz, sizeOfBookCnt := cnt }

/-- The four cases of `remove_order`: the heap, the head and the tail without the node at
    `n`, whose links are given. -/
def unlink (q : OrderQ) (n : Ptr) (prev next : Option Ptr) :
    Option (Heap Ptr Obj × Option Ptr × Option Ptr) :=
  if q.head = q.tail then if q.head = some n then some (q.heap, none, none) else none
  else if q.head = some n then
    next.bind fun c => (setPrev q.heap c none).map fun heap => (heap, some c, q.tail)
  else if q.tail = some n then
    prev.bind fun b => (setNext q.heap b none).map fun heap => (heap, q.head, some b)
  else
    prev.bind fun b => next.bind fun c =>
      (setNext q.heap b (some c)).bind fun heap =>
        (setPrev heap c (some b)).map fun heap => (heap, q.head, q.tail)

/-- `remove_order`, which deletes the order. -/
def removeOrder (q : OrderQ) (n : Ptr) : Option OrderQ :=
  (q.heap n).bind fun nd =>
    if nd.val.deleted = true ∨ q.endsMeet = false then none
    else
      (q.unlink n nd.prev nd.next).bind fun r =>
        (if nd.val.order.isSim then some q.sizeOfBookCnt else int32 (q.sizeOfBookCnt - 1)).map
          fun cnt =>
            { q with
              heap := Function.update r.1 n none, head := r.2.1, tail := r.2.2
              sizeOfBookCnt := cnt }

/-- `canc_notify`. -/
def cancNotify (q : OrderQ) (n : Ptr) (dispSz : ℤ) (modtyp : Mt) : Option (OrderQ × List Note) :=
  (q.heap n).bind fun nd =>
    let o := nd.val
    if o.cancelled = true ∨ o.deleted = true ∨ o.filled = true ∨
        ¬ (modtyp = .canc ∨ modtyp = .cancd) ∨ dispSz < 0 then none
    else
      (o.cancNotify dispSz modtyp).bind fun r =>
        (if o.order.isSim then some q.ordersInBook else int32 (q.ordersInBook - r.2.1)).bind
          fun total =>
            (setVal q.heap n r.1).bind fun heap =>
              if r.1.order.sz < 0 ∨ total < 0 then none
              else if r.1.order.sz = 0 ∨ modtyp = .cancd then
                let total := if o.order.isSim then total else total - max r.1.order.sz 0
                (removeOrder
                  { q with
                    heap := heap, ordersInBook := total
                    qordermap := q.qordermap.erase o.order.id } n).map
                  fun q => (q, r.2.2)
              else some ({ q with heap := heap, ordersInBook := total }, r.2.2)

/-- `fill_notify`. -/
def fillNotify (q : OrderQ) (n : Ptr) (sz dispSz px : ℤ) (modtyp : Mt) (tim : ℕ) :
    Option (OrderQ × List Note) :=
  (q.heap n).bind fun nd =>
    let o := nd.val
    if tim = 0 ∨ o.cancelled = true ∨ o.deleted = true ∨ o.filled = true ∨
        o.order.isSim = false ∨ o.order.sz ≤ 0 ∨ ¬ (modtyp = .exec ∨ modtyp = .execd) ∨
        (modtyp = .execd ∧ dispSz = 0) then none
    else
      (o.fillNotify sz dispSz px modtyp tim).bind fun r =>
        (setVal q.heap n r.1).bind fun heap =>
          if o.order.sz - r.1.order.sz ≤ 0 then none
          else if r.1.order.sz = 0 ∨ modtyp = .execd then
            (removeOrder
              { q with heap := heap, qordermap := q.qordermap.erase o.order.id } n).map
              fun q => (q, [r.2])
          else some ({ q with heap := heap }, [r.2])

/-- The order of the keys of `qordermap`: the venue is the upper half of an id. -/
def idLe (i j : LongId) : Prop := i.exchid < j.exchid ∨ (i.exchid = j.exchid ∧ i.id ≤ j.id)

instance (i j : LongId) : Decidable (idLe i j) :=
  inferInstanceAs (Decidable (i.exchid < j.exchid ∨ (i.exchid = j.exchid ∧ i.id ≤ j.id)))

/-- `qordermap.begin()`, on the keys. -/
def begin : List LongId → Option LongId
  | [] => none
  | i :: is =>
      match begin is with
      | none => some i
      | some j => if idLe i j then some i else some j

/-- The loop of `canc_notify_all`, for at most `k` orders. -/
def cancNotifyAllLoop : ℕ → OrderQ → Option (OrderQ × List Note)
  | 0, q => if begin q.qordermap.keys = none then some (q, []) else none
  | k + 1, q =>
      match begin q.qordermap.keys with
      | none => some (q, [])
      | some i =>
          (q.qordermap.lookup i).bind fun n =>
            (q.cancNotify n 0 .cancd).bind fun r =>
              (cancNotifyAllLoop k r.1).map fun r' => (r'.1, r.2 ++ r'.2)

/-- `canc_notify_all`. -/
def cancNotifyAll (q : OrderQ) : Option (OrderQ × List Note) :=
  q.cancNotifyAllLoop q.qordermap.keys.length

/-- The walk of `get_orders_in_book` from `n`, over at most `k` orders: the sum of the sizes and
    the number of the exchange's orders. -/
def walkBook (heap : Heap Ptr Obj) : ℕ → Option Ptr → Option (ℤ × ℤ)
  | _, none => some (0, 0)
  | 0, some _ => none
  | k + 1, some n =>
      (heap n).bind fun nd =>
        (walkBook heap k nd.next).map fun r =>
          if nd.val.order.isSim then r else (nd.val.order.sz + r.1, 1 + r.2)

/-- `get_orders_in_book`. -/
def getOrdersInBook (q : OrderQ) : Option ℤ :=
  (walkBook q.heap q.qordermap.keys.length q.head).bind fun r =>
    if r.1 = q.ordersInBook ∧ r.2 = q.sizeOfBookCnt then some q.ordersInBook else none

/-! ### Calls -/

/-- The calls of a level's users.  `new` gives `append` its pointer. -/
inductive Call where
  | append (n : Ptr) (o : Order)
  | cancNotify (n : Ptr) (dispSz : ℤ) (modtyp : Mt)
  | fillNotify (n : Ptr) (sz dispSz px : ℤ) (modtyp : Mt) (tim : ℕ)
  | cancNotifyAll

/-- One call; an order is checked by its constructor. -/
def step (q : OrderQ) : Call → Option (OrderQ × List Note)
  | .append n o => (newOrder o).bind fun o => (q.append n o).map fun q => (q, [])
  | .cancNotify n dispSz modtyp => q.cancNotify n dispSz modtyp
  | .fillNotify n sz dispSz px modtyp tim => q.fillNotify n sz dispSz px modtyp tim
  | .cancNotifyAll => q.cancNotifyAll

end OrderQ

end KasparHft.OB
