import KasparHft.AssocMap
import KasparHft.MatchingBook
import Mathlib.Algebra.Group.Nat.Defs

/-!
# The matching engine

The order book of the matching engine: price levels in an ordered map, each an intrusive doubly
linked list over a shared slab of nodes, and an index from order ids to slots of the slab.  Freed
slots are a stack and are handed out again.

Slots are `u32`, prices and quantities `u64`.  A call stops (`none`) where the program panics: an
index out of bounds, a level that is not there, a difference below zero or a sum that does not fit
(a release build wraps such a sum; `KasparHft.MatchingEngineRuns` says when there is none).
-/

namespace KasparHft.MatchingEngine

open AssocMap PriceTime

variable {H : Type}

/-- Sentinel slab index for the links. -/
def NIL : ℕ := 4294967295

/-- A resting order in the list of its level. -/
structure Node (H : Type) where
  orderId : ℕ
  side : Side
  price : ℕ
  qty : ℕ
  originator : H
  prev : ℕ
  next : ℕ
deriving DecidableEq, Repr

/-- One price level: the ends of its list and a running total. -/
structure Level where
  head : ℕ
  tail : ℕ
  total : ℕ
deriving DecidableEq, Repr

structure OrderBook (H : Type) where
  bids : Map ℕ Level := ∅
  asks : Map ℕ Level := ∅
  nodes : List (Node H) := []
  /-- The freed slots, the last one first. -/
  free : List ℕ := []
  index : Map ℕ ℕ := ∅
  nextTradeId : ℕ := 1

/-- A sum of two `u64`. -/
def add64 (x y : ℕ) : Option ℕ := if x + y < 2 ^ 64 then some (x + y) else none

def modifyNode (nodes : List (Node H)) (i : ℕ) (f : Node H → Node H) : Option (List (Node H)) :=
  if i < nodes.length then some (nodes.modify i f) else none

namespace OrderBook

def book (e : OrderBook H) : Side → Map ℕ Level
  | .buy => e.bids
  | .sel => e.asks

def setBook (e : OrderBook H) (side : Side) (levels : Map ℕ Level) : OrderBook H :=
  match side with
  | .buy => { e with bids := levels }
  | .sel => { e with asks := levels }

/-- The best price of a side: the last key of the bids, the first of the asks. -/
def topPx (e : OrderBook H) : Side → Option ℕ
  | .buy => e.bids.keys.max?
  | .sel => e.asks.keys.min?

/-- The best price of a side and the total there. -/
def top (e : OrderBook H) (side : Side) : Option (ℕ × ℕ) :=
  (e.topPx side).bind fun px => ((e.book side).lookup px).map fun lvl => (px, lvl.total)

def bbo (e : OrderBook H) : Option (ℕ × ℕ) × Option (ℕ × ℕ) := (e.top .buy, e.top .sel)

/-! ### Resting -/

/-- A slot for a node: a freed one, or a new one at the end of the slab. -/
def alloc (e : OrderBook H) (node : Node H) : Option (List (Node H) × List ℕ × ℕ) :=
  match e.free with
  | i :: free => if i < e.nodes.length then some (e.nodes.set i node, free, i) else none
  | [] => some (e.nodes ++ [node], [], e.nodes.length % 2 ^ 32)

/-- The node at `idx` goes behind the one at `oldTail`, if there is one. -/
def linkBehind (nodes : List (Node H)) (oldTail idx : ℕ) : Option (List (Node H)) :=
  if oldTail = NIL then some nodes
  else (modifyNode nodes oldTail fun n => { n with next := idx }).bind fun nodes =>
    modifyNode nodes idx fun n => { n with prev := oldTail }

/-- Append a new resting order at the tail of its level. -/
def restOrder (e : OrderBook H) (orderId : ℕ) (side : Side) (price qty : ℕ) (who : H) :
    Option (OrderBook H) := do
  let (nodes, free, idx) ← e.alloc ⟨orderId, side, price, qty, who, NIL, NIL⟩
  let oldTail := ((e.book side).lookup price).elim NIL Level.tail
  let nodes ← linkBehind nodes oldTail idx
  let lvl := ((e.book side).lookup price).getD ⟨NIL, NIL, 0⟩
  let total ← add64 lvl.total qty
  let lvl : Level := ⟨if lvl.head = NIL then idx else lvl.head, idx, total⟩
  some { e.setBook side ((e.book side).insert price lvl) with
    nodes := nodes, free := free, index := e.index.insert orderId idx }

/-! ### Unlinking -/

def setNextOf (nodes : List (Node H)) (i next : ℕ) : Option (List (Node H)) :=
  if i = NIL then some nodes else modifyNode nodes i fun n => { n with next := next }

def setPrevOf (nodes : List (Node H)) (i prev : ℕ) : Option (List (Node H)) :=
  if i = NIL then some nodes else modifyNode nodes i fun n => { n with prev := prev }

/-- A level whose node `idx` is taken out. -/
def dropFromLevel (levels : Map ℕ Level) (n : Node H) (idx : ℕ) : Option (Map ℕ Level) :=
  match levels.lookup n.price with
  | none => some levels
  | some lvl =>
      if lvl.total < n.qty then none
      else
        let head := if lvl.head = idx then n.next else lvl.head
        let tail := if lvl.tail = idx then n.prev else lvl.tail
        some (if head = NIL then levels.erase n.price
          else levels.insert n.price ⟨head, tail, lvl.total - n.qty⟩)

/-- Unlink a node from its level, free the slot, drop it from the index. -/
def unlink (e : OrderBook H) (idx : ℕ) : Option (OrderBook H × ℕ × H) := do
  let n ← e.nodes[idx]?
  let nodes ← setNextOf e.nodes n.prev n.next
  let nodes ← setPrevOf nodes n.next n.prev
  let levels ← dropFromLevel (e.book n.side) n idx
  some ({ e.setBook n.side levels with
    nodes := nodes, index := e.index.erase n.orderId, free := idx :: e.free },
    n.qty, n.originator)

/-! ### Matching -/

/-- The best price of the other side, if it crosses. -/
def crossPx (e : OrderBook H) (side : Side) (price : ℕ) : Option ℕ :=
  (e.topPx side.other).filter (suits side price)

/-- The level after a fill at its head: what is left of the head, and the node behind it. -/
def fillLevel (levels : Map ℕ Level) (px x leaves next : ℕ) : Option (Map ℕ Level) :=
  match levels.lookup px with
  | none => none
  | some lvl =>
      if lvl.total < x then none
      else if leaves ≠ 0 then some (levels.insert px ⟨lvl.head, lvl.tail, lvl.total - x⟩)
      else if next = NIL then some (levels.erase px)
      else some (levels.insert px ⟨next, lvl.tail, lvl.total - x⟩)

/-- One turn of the matching loop at a crossing price: a fill at the head of the level. -/
def matchHead (e : OrderBook H) (orderId : ℕ) (side : Side) (who : H) (remaining px : ℕ) :
    Option (OrderBook H × ℕ × List (Event H)) := do
  let lvl ← (e.book side.other).lookup px
  let n ← e.nodes[lvl.head]?
  let x := min remaining n.qty
  let leaves := n.qty - x
  let nodes ← modifyNode e.nodes lvl.head fun n => { n with qty := leaves }
  let levels ← fillLevel (e.book side.other) px x leaves n.next
  let nodes ← if leaves = 0 then setPrevOf nodes n.next NIL else some nodes
  let nextTradeId ← add64 e.nextTradeId 1
  some ({ e.setBook side.other levels with
      nodes := nodes
      index := if leaves = 0 then e.index.erase n.orderId else e.index
      free := if leaves = 0 then lvl.head :: e.free else e.free
      nextTradeId := nextTradeId },
    remaining - x,
    [.fill n.originator n.orderId n.side n.price x leaves orderId e.nextTradeId,
      .fill who orderId side n.price x (remaining - x) n.orderId e.nextTradeId])

/-- Match while marketable.  A turn takes the head out of its level or is the last. -/
def matchLoop (orderId : ℕ) (side : Side) (price : ℕ) (who : H) :
    ℕ → OrderBook H → ℕ → Option (OrderBook H × ℕ × List (Event H))
  | 0, _, _ => none
  | fuel + 1, e, remaining =>
      if remaining = 0 then some (e, 0, [])
      else
        match e.crossPx side price with
        | none => some (e, remaining, [])
        | some px => do
            let (e, remaining, now) ← e.matchHead orderId side who remaining px
            let (e, remaining, later) ← matchLoop orderId side price who fuel e remaining
            some (e, remaining, now ++ later)

/-- Rest the remainder, if there is one. -/
def restRemainder (e : OrderBook H) (orderId : ℕ) (side : Side) (price remaining : ℕ) (who : H) :
    Option (OrderBook H × List (Event H)) :=
  if remaining = 0 then some (e, [])
  else (e.restOrder orderId side price remaining who).map fun e =>
    (e, [.ack who orderId remaining])

/-! ### The calls -/

/-- Place a limit order: match what crosses, rest the rest. -/
def place (e : OrderBook H) (orderId : ℕ) (side : Side) (price qty : ℕ) (who : H) :
    Option (OrderBook H × List (Event H)) :=
  if qty = 0 ∨ price = 0 then
    some (e, [.rejected who orderId "price and qty must be positive"])
  else if (e.index.lookup orderId).isSome then
    some (e, [.rejected who orderId "duplicate order_id"])
  else do
    let (e₁, remaining, trades) ←
      matchLoop orderId side price who (e.index.entries.length + 1) e qty
    let (e₂, ack) ← e₁.restRemainder orderId side price remaining who
    some (e₂, trades ++ ack ++ bboNote e.bbo e₂.bbo)

/-- Cancel a resting order. -/
def cancel (e : OrderBook H) (orderId : ℕ) (who : H) : Option (OrderBook H × List (Event H)) :=
  match e.index.lookup orderId with
  | none => some (e, [.rejected who orderId "cancel: unknown order"])
  | some idx => do
      let (e₁, canceledQty, originator) ← e.unlink idx
      some (e₁, .canceled originator orderId canceledQty :: bboNote e.bbo e₁.bbo)

def isBbo : Event H → Bool
  | .bbo _ _ => true
  | _ => false

/-- Cancel-replace: remove the old order and place a fresh one under its id. -/
def replace (e : OrderBook H) (orderId newPrice newQty : ℕ) (who : H) :
    Option (OrderBook H × List (Event H)) :=
  match e.index.lookup orderId with
  | none => some (e, [.rejected who orderId "replace: unknown order"])
  | some idx =>
      if newPrice = 0 ∨ newQty = 0 then
        some (e, [.rejected who orderId "replace: price and qty must be positive"])
      else do
        let n ← e.nodes[idx]?
        let (e₁, _, originator) ← e.unlink idx
        let (e₂, events) ← e₁.place orderId n.side newPrice newQty originator
        some (e₂, .replaced originator orderId newPrice newQty ::
          (events.filter (fun ev => !isBbo ev) ++ bboNote e.bbo e₂.bbo))

def step (e : OrderBook H) : Call H → Option (OrderBook H × List (Event H))
  | .place orderId side price qty who => e.place orderId side price qty who
  | .cancel orderId who => e.cancel orderId who
  | .replace orderId newPrice newQty who => e.replace orderId newPrice newQty who

end OrderBook

/-- A sweep through three levels, a cancel and a replace that crosses. -/
example : (Machine.run OrderBook.step ({} : OrderBook ℕ)
    [.place 1 .sel 5 50 7, .place 2 .sel 6 50 8, .place 3 .buy 6 70 9, .place 4 .buy 4 10 9,
      .cancel 4 9, .replace 2 3 20 8]).map Prod.snd =
    some [.ack 7 1 50, .bbo none (some (5, 50)), .ack 8 2 50,
      .fill 7 1 .sel 5 50 0 3 1, .fill 9 3 .buy 5 50 20 1 1,
      .fill 8 2 .sel 6 20 30 3 2, .fill 9 3 .buy 6 20 0 2 2, .bbo none (some (6, 30)),
      .ack 9 4 10, .bbo (some (4, 10)) (some (6, 30)),
      .canceled 9 4 10, .bbo none (some (6, 30)),
      .replaced 8 2 3 20, .ack 8 2 20, .bbo none (some (3, 20))] := by
  decide +kernel

end KasparHft.MatchingEngine
