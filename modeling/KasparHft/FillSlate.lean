import KasparHft.AssocMap
import KasparHft.MarketSide
import Mathlib.Data.Multiset.Basic

/-!
# The fill slate

`frame/ob/FillSlate.hpp`: the fills of a trade are held until the book records of the
same transaction tell the resting orders from the aggressor, and are then released
through a callback with a role.  Both books own one (`TachBook` in mode
`AT_DECISION`, `OB` in mode `AT_OWN_RECORD`).

The callback is modelled by the list of what was released, in order.  The price type
and the payload are parameters: a slate only stores the price and compares it with
the price of a book record through `same_px`, and hands the payload back as it came.
-/

namespace KasparHft

namespace FillSlate

open AssocMap

/-- The role a fill is released with. -/
inductive FillRole where
  | resting
  | aggressor
  | ambiguous
deriving DecidableEq, Repr

/-- When fills are released (`enum class Release`). -/
inductive Release where
  | atDecision
  | atOwnRecord
deriving DecidableEq, Repr

/-- What a caller hands to `on_trade`. -/
structure Trade (Px Pl : Type) where
  oid : ℕ
  tx : ℕ
  px : Px
  side : Side
  qty : ℕ
  atTouch : Bool
  pl : Pl
deriving DecidableEq, Repr

/-- A fill as the slate stores it: the trade, the index of the next fill of the same
    order (`-1` is `none`) and whether it has been released. -/
structure Fill (Px Pl : Type) extends Trade Px Pl where
  next : Option ℕ
  released : Bool
deriving DecidableEq, Repr

/-- `FillSlate::Ord`: an order's fills, chained through `next`, and whether its book
    record has arrived. -/
structure Ord where
  first : ℕ
  last : ℕ
  seen : Bool
deriving DecidableEq, Repr

/-- The decision `aside_`: `SIDE_UNKNOWN`, `SIDE_NONE` or the aggressor's side. -/
inductive ASide where
  | unknown
  | none
  | side (s : Side)
deriving DecidableEq, Repr

/-- The members of a `FillSlate`.  `movedSide` and `keptSide` are `none` where the
    source has `SIDE_UNKNOWN`. -/
structure Slate (Px Pl : Type) where
  mode : Release
  fills : List (Fill Px Pl) := []
  idx : Map ℕ Ord := ∅
  held : ℕ := 0
  txOpen : Bool := false
  tx : ℕ := 0
  nb : ℕ := 0
  ns : ℕ := 0
  seenOrders : ℕ := 0
  movedSide : Option Side := none
  keptSide : Option Side := none
  buyAtTouch : Bool := true
  selAtTouch : Bool := true
  aside : ASide := .unknown
  nResting : ℕ := 0
  nAggressor : ℕ := 0
  nAmbiguous : ℕ := 0

/-- One call of the release callback. -/
structure Released (Px Pl : Type) where
  fill : Fill Px Pl
  role : FillRole
deriving DecidableEq, Repr

variable {Px Pl : Type}

/-! ### The decision -/

/-- `compute_side`: the header's rule table. -/
def Slate.computeSide (s : Slate Px Pl) : ASide :=
  if s.nb = 0 ∨ s.ns = 0 then .none
  else if 2 ≤ s.nb ∧ 2 ≤ s.ns then .none
  else if s.nb = 1 ∧ 2 ≤ s.ns then .side .buy
  else if s.ns = 1 ∧ 2 ≤ s.nb then .side .sel
  else
    match s.movedSide, s.keptSide with
    | some m, _ => .side m
    | none, some k => .side k.other
    | none, none =>
        if s.buyAtTouch ≠ s.selAtTouch then .side (if s.buyAtTouch then .sel else .buy)
        else .unknown

/-- `role_for`: the role of a fill under the current decision. -/
def Slate.roleFor (s : Slate Px Pl) (f : Fill Px Pl) : FillRole :=
  match s.aside with
  | .none => .resting
  | .unknown => .ambiguous
  | .side a => if f.side = a then .aggressor else .resting

/-! ### Releasing -/

/-- The diagnostics counters of `release_one`. -/
def Slate.count (s : Slate Px Pl) : FillRole → Slate Px Pl
  | .resting => { s with nResting := s.nResting + 1 }
  | .aggressor => { s with nAggressor := s.nAggressor + 1 }
  | .ambiguous => { s with nAmbiguous := s.nAmbiguous + 1 }

/-- `release_one` on the fill at index `i`. -/
def Slate.releaseOne (s : Slate Px Pl) (i : ℕ) (r : FillRole) :
    Slate Px Pl × List (Released Px Pl) :=
  match s.fills[i]? with
  | none => (s, [])
  | some f =>
      if f.released then (s, [])
      else
        let f' := { f with released := true }
        ({ (s.count r) with fills := s.fills.set i f', held := s.held - 1 }, [⟨f', r⟩])

/-- The source's loops over `fills_`: from index `i` on, release each of the next `n`
    fills that satisfies `cond`, with the role `role` gives it. -/
def Slate.releaseEach (s : Slate Px Pl) (cond : Fill Px Pl → Bool)
    (role : Slate Px Pl → Fill Px Pl → FillRole) :
    ℕ → ℕ → Slate Px Pl × List (Released Px Pl)
  | _, 0 => (s, [])
  | i, n + 1 =>
      match s.fills[i]? with
      | none => (s, [])
      | some f =>
          let (s₁, o₁) := if cond f then s.releaseOne i (role s f) else (s, [])
          let (s₂, o₂) := s₁.releaseEach cond role (i + 1) n
          (s₂, o₁ ++ o₂)

/-- `release_order`: follow an order's chain of fills from index `i`.  A chain only
    moves forward, so the number of fills bounds its length. -/
def Slate.releaseOrder (s : Slate Px Pl) (undecided : FillRole) :
    ℕ → Option ℕ → Slate Px Pl × List (Released Px Pl)
  | 0, _ => (s, [])
  | _, none => (s, [])
  | n + 1, some i =>
      match s.fills[i]? with
      | none => (s, [])
      | some f =>
          let r := if s.aside = .unknown then undecided else s.roleFor f
          let (s₁, o₁) := s.releaseOne i r
          let (s₂, o₂) := s₁.releaseOrder undecided n f.next
          (s₂, o₁ ++ o₂)

/-- `reset_tx`. -/
def Slate.resetTx (s : Slate Px Pl) : Slate Px Pl :=
  { s with
    txOpen := false, nb := 0, ns := 0, seenOrders := 0, movedSide := none, keptSide := none,
    buyAtTouch := true, selAtTouch := true, aside := .unknown }

/-- `clear`: drop the held fills without releasing them. -/
def Slate.clear (s : Slate Px Pl) : Slate Px Pl :=
  { s with
    idx := s.fills.foldl (fun m (f : Fill Px Pl) => m.erase f.oid) s.idx
    fills := []
    held := 0 }.resetTx

/-- `close_tx`: release everything still held, in trade order, and start afresh. -/
def Slate.closeTx (s : Slate Px Pl) : Slate Px Pl × List (Released Px Pl) :=
  let s₁ := if s.aside = .unknown then { s with aside := s.computeSide } else s
  let (s₂, o) := s₁.releaseEach (fun f => !f.released) roleFor 0 s₁.fills.length
  (s₂.clear, o)

/-! ### The calls -/

/-- `advance`. -/
def Slate.advance (s : Slate Px Pl) (tx : ℕ) : Slate Px Pl × List (Released Px Pl) :=
  if s.txOpen ∧ tx ≠ s.tx then s.closeTx else (s, [])

/-- The first part of `on_trade`, after `advance`: open the transaction and append the
    fill. -/
def Slate.pushFill (s : Slate Px Pl) (t : Trade Px Pl) : Slate Px Pl :=
  { s with
    txOpen := true
    tx := if s.txOpen then s.tx else t.tx
    fills := s.fills ++ [{ t with next := none, released := false }]
    held := s.held + 1 }

/-- The index update of `on_trade` for the fill at `i`: a new order is counted on its
    side, a repeat listing is chained behind the order's last fill. -/
def Slate.indexFill (s : Slate Px Pl) (t : Trade Px Pl) (i : ℕ) : Slate Px Pl :=
  match s.idx.lookup t.oid with
  | none =>
      let s := { s with idx := s.idx.insert t.oid ⟨i, i, false⟩ }
      match t.side with
      | .buy => { s with nb := s.nb + 1, buyAtTouch := t.atTouch }
      | .sel => { s with ns := s.ns + 1, selAtTouch := t.atTouch }
  | some o =>
      { s with
        fills := s.fills.modify o.last fun f => { f with next := some i }
        idx := s.idx.insert t.oid { o with last := i } }

/-- The last part of `on_trade`: a decided transaction (`AT_DECISION`) releases its later
    fills at once; so does a fill whose order's record already came. -/
def Slate.releaseIfDecided (s : Slate Px Pl) (oid i : ℕ) :
    Slate Px Pl × List (Released Px Pl) :=
  match s.idx.lookup oid, s.fills[i]? with
  | some o, some f =>
      if s.aside ≠ .unknown ∧ (s.mode = .atDecision ∨ o.seen = true) then
        s.releaseOne i (s.roleFor f)
      else (s, [])
  | _, _ => (s, [])

/-- `on_trade`. -/
def Slate.onTrade (s : Slate Px Pl) (t : Trade Px Pl) : Slate Px Pl × List (Released Px Pl) :=
  let (s₁, o₁) := s.advance t.tx
  let i := s₁.fills.length
  let (s₂, o₂) := ((s₁.pushFill t).indexFill t i).releaseIfDecided t.oid i
  (s₂, o₁ ++ o₂)

/-- The part of `on_book` that applies once the order's record has been noted: take the
    decision if it can be taken, and release what the mode releases now. -/
def Slate.decide (s : Slate Px Pl) (o : Ord) : Slate Px Pl × List (Released Px Pl) :=
  if s.aside = .unknown then
    let s₁ := { s with aside := s.computeSide }
    if s₁.aside ≠ .unknown then
      -- just decided
      s₁.releaseEach
        (fun g => !g.released && (s₁.mode = .atDecision ||
          match s₁.idx.lookup g.oid with
          | none => false
          | some og => og.seen))
        roleFor 0 s₁.fills.length
    else if s₁.mode = .atOwnRecord then
      s₁.releaseOrder .ambiguous s₁.fills.length (some o.first)
    else if s₁.seenOrders = s₁.nb + s₁.ns then
      -- every listed order's record is in: nothing more can decide it
      s₁.releaseEach (fun g => !g.released) (fun _ _ => .ambiguous) 0 s₁.fills.length
    else (s₁, [])
  else if s.mode = .atOwnRecord then
    s.releaseOrder .ambiguous s.fills.length (some o.first)
  else (s, [])

/-- `on_book`: a live book record, before it is applied.  `action` is CME's
    `OrderUpdateAction` (0 New, 1 Change, 2 Delete). -/
def Slate.onBook (samePx : Px → Px → Bool) (s : Slate Px Pl) (oid tx action : ℕ) (px : Px) :
    Slate Px Pl × List (Released Px Pl) :=
  if s.txOpen = false then (s, [])
  else if tx ≠ s.tx then s.closeTx
  else if action ≠ 1 ∧ action ≠ 2 then (s, [])
  else
    match s.idx.lookup oid with
    | none => (s, [])
    | some o =>
        if o.seen then (s, [])
        else
          let s₁ := { s with
            idx := s.idx.insert oid { o with seen := true }, seenOrders := s.seenOrders + 1 }
          let s₂ :=
            match s₁.fills[o.first]? with
            | none => s₁
            | some first =>
                if action = 1 then
                  if samePx px first.px then { s₁ with keptSide := some first.side }
                  else { s₁ with movedSide := some first.side }
                else s₁
          s₂.decide { o with seen := true }

/-- `flush`. -/
def Slate.flush (s : Slate Px Pl) : Slate Px Pl × List (Released Px Pl) := s.closeTx

/-- The calls a book makes on its slate. -/
inductive Call (Px Pl : Type) where
  | advance (tx : ℕ)
  | onTrade (t : Trade Px Pl)
  | onBook (oid tx action : ℕ) (px : Px)
  | flush

/-- One call. -/
def Slate.call (samePx : Px → Px → Bool) (s : Slate Px Pl) :
    Call Px Pl → Slate Px Pl × List (Released Px Pl)
  | .advance tx => s.advance tx
  | .onTrade t => s.onTrade t
  | .onBook oid tx action px => s.onBook samePx oid tx action px
  | .flush => s.flush

/-- A fresh slate. -/
def Slate.new (mode : Release) : Slate Px Pl := { mode := mode }

end FillSlate

end KasparHft
