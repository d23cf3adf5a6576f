import KasparHft.MarketSide
import Mathlib.Algebra.Group.Nat.Defs
import Mathlib.Algebra.Ring.Int.Defs
import Mathlib.Data.Int.Notation
import Mathlib.Data.Nat.Notation

/-!
# Market data

The records of the feed (`bfile/r_l3.hpp`) and the payload the books make of them
(`frame/mda/msg/Data.hpp`), shared by `TachBook` and `OB`.

A price is a `double` in the source.  The books turn it into a tick, compare two and test
the sign; what they do is a parameter, so nothing here depends on rounding.  `uint32_t` is
a natural number below 2^32, carried with its bound, and `toInt32` is the conversion to
`int`.
-/

namespace KasparHft

/-- What a book asks of prices: `to_px`, `eq`, `pxd > 0` and `FillSlate::same_px`. -/
structure PriceOps (Px : Type) where
  toPx : Px → ℤ
  eq : Px → Px → Bool
  pos : Px → Bool
  samePx : Px → Px → Bool

/-- The conversion of a `uint32_t` to `int`. -/
def toInt32 (n : ℕ) : ℤ := if n < 2 ^ 31 then n else n - 2 ^ 32

theorem toInt32_of_lt {n : ℕ} (h : n < 2 ^ 31) : toInt32 n = n := if_pos h

theorem lt_of_toInt32_nonneg {n : ℕ} (hn : n < 2 ^ 32) (h : 0 ≤ toInt32 n) : n < 2 ^ 31 := by
  unfold toInt32 at h
  split at h <;> omega

/-- Prices that are their own ticks. -/
def tickOps : PriceOps ℤ := ⟨id, (· == ·), (0 < ·), (· == ·)⟩

/-! ### Records -/

/-- `l3_mbo_v2_t`: a New (0), Change (1) or Delete (2) of one order. -/
structure Mbo (Px : Type) where
  venue : ℕ
  transactTime : ℕ
  sendingTime : ℕ
  orderUpdateAction : ℕ
  securityID : ℤ
  orderID : ℕ
  pxd : Px
  displayQty : ℕ
  displayQty_lt : displayQty < 2 ^ 32
  side : Char
  endOfEvent : Bool
  recovery : Bool

/-- `l3_mbo_trd_v2_t`: a trade of one order, without price or side. -/
structure MboTrd where
  venue : ℕ
  transactTime : ℕ
  sendingTime : ℕ
  lastQty : ℤ
  orderID : ℕ
  endOfEvent : Bool

/-- The alternatives of `Data::l3`: book and trade records, `l3_chr_v2_t`,
    `l3_gap_v2_t` and the rest. -/
inductive L3 (Px : Type) where
  | mbo (m : Mbo Px)
  | mboTrd (t : MboTrd)
  | chr
  | gap
  | other

/-- `have_side`: what `get_side` reads in a side character. -/
def getSide : Char → Option Side
  | '0' => some .buy
  | '1' => some .sel
  | _ => none

/-! ### Payloads -/

/-- `en::md`. -/
inductive Md where
  | add | mod | del | uni | exec | eoe | clear | test | eop | gap | eoburst
deriving DecidableEq, Repr

/-- `en::mt`. -/
inductive Mt where
  | exec | canc | none | uni | cancd | execd
deriving DecidableEq, Repr

/-- `en::x::UNI`, `en::x::SIM` and `x_num_syms`. -/
def xUNI : ℕ := 0
def xSIM : ℕ := 18
def xNumSyms : ℕ := 25

/-- `en::is_valid(x)`. -/
def validVenue (x : ℕ) : Bool := x < xNumSyms && x != xUNI

/-- `OrderID::longid`: a venue in the upper and an order number in the lower half. -/
structure LongId where
  exchid : ℕ
  id : ℕ
deriving DecidableEq, Repr

/-- `data_pay_load`. -/
structure Payload (Px : Type) where
  side : Side
  exOrderId : ℕ
  orderRef : LongId
  mev : Md
  action : Mt
  sz : ℤ
  dispSz : ℤ
  px : Px
  tim : ℕ
  sendTim : ℕ
  mkt : ℕ
  eoe : Bool
  recovery : Bool
deriving DecidableEq, Repr

/-- `CHOPIN_MAX_ORD_SZ`. -/
def chopinMaxOrdSz : ℤ := 10000000

variable {Px : Type}

/-- `data_pay_load::is_sim`. -/
def Payload.isSim (p : Payload Px) : Bool := p.orderRef.exchid == xSIM

/-- `data_pay_load::is_valid`; where it does not hold the process aborts. -/
def Payload.isValid (p : Payload Px) : Bool :=
  p.mev == .clear || p.mev == .eop || p.mev == .gap || p.mev == .eoburst ||
  (p.mev == .test && 0 < p.sz) ||
  (0 ≤ p.sz && p.sz ≤ chopinMaxOrdSz && 0 ≤ p.dispSz && validVenue p.mkt &&
    (p.mev == .add || p.action != .uni) && p.mev != .uni &&
    (p.recovery || p.isSim || 0 < p.sendTim))

/-- The end of `make_payload`: a price that is not positive and a payload that is not valid
    abort. -/
def makePayload (ops : PriceOps Px) (p : Payload Px) : Option (Payload Px) :=
  if ops.pos p.px && p.isValid then some p else none

theorem makePayload_eq_some {ops : PriceOps Px} {p q : Payload Px} :
    makePayload ops p = some q ↔ ops.pos p.px = true ∧ p.isValid = true ∧ q = p := by
  unfold makePayload
  split
  next h =>
    rw [Bool.and_eq_true] at h
    simp [h.1, h.2, eq_comm]
  next h =>
    rw [Bool.and_eq_true] at h
    simp only [reduceCtorEq, false_iff]
    intro hall
    exact h ⟨hall.1, hall.2.1⟩

/-- Book events carry sizes that are not negative. -/
theorem Payload.sizes_of_isValid {p : Payload Px} (hmev : p.mev = .add ∨ p.mev = .mod)
    (h : p.isValid = true) : 0 ≤ p.sz ∧ p.sz ≤ chopinMaxOrdSz ∧ 0 ≤ p.dispSz := by
  unfold Payload.isValid at h
  rcases hmev with hm | hm
  · simp only [hm, Bool.or_eq_true, Bool.and_eq_true, decide_eq_true_eq, beq_iff_eq, reduceCtorEq,
      false_or, false_and] at h
    exact ⟨h.1.1.1.1.1.1, h.1.1.1.1.1.2, h.1.1.1.1.2⟩
  · simp only [hm, Bool.or_eq_true, Bool.and_eq_true, decide_eq_true_eq, beq_iff_eq, reduceCtorEq,
      false_or, false_and] at h
    exact ⟨h.1.1.1.1.1.1, h.1.1.1.1.1.2, h.1.1.1.1.2⟩

/-! ### Points -/

/-- `NLEVELS`. -/
def nLevels : ℕ := 16

/-- The arrays of `point` and its `baddata` flag. -/
structure Point where
  bidPx : List ℤ
  askPx : List ℤ
  bidSz : List ℤ
  askSz : List ℤ
  baddata : Bool
deriving DecidableEq, Repr

/-- `fast_compare`. -/
def Point.fastCompare (p q : Point) : Bool :=
  p.bidPx == q.bidPx && p.askPx == q.askPx && p.bidSz == q.bidSz && p.askSz == q.askSz

end KasparHft
