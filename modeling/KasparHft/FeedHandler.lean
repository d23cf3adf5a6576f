import KasparHft.AssocMap
import KasparHft.MarketData

/-!
# The handler of decoded entries

The MBO callbacks of `handler_if`: each makes a record of a decoded entry, gives it to the
recorder, and sends it to the book of its instrument.  A trade entry names an order and no
instrument, so the handler keeps `orderid_to_securityid`: a New or a snapshot entry sets it,
a Delete erases it.

The instruments and the books are those of a run without instrument definitions.  Session
statistics, the MBP callbacks, security status, end of burst and the latency samples are
left out.
-/

namespace KasparHft.HandlerIf

open AssocMap

variable {Px : Type}

/-- The conversion of an `int32_t` to `uint32_t`. -/
def toUint32 (n : ℤ) : ℕ := (n % 2 ^ 32).toNat

theorem toUint32_lt (n : ℤ) : toUint32 n < 2 ^ 32 := by
  have hlt : n % 2 ^ 32 < 2 ^ 32 := Int.emod_lt_of_pos n (by decide)
  unfold toUint32
  omega

/-! ### Entries and records -/

/-- The arguments of `MDIncrementalRefreshBook`, MBO: a New (0), Change (1) or Delete (2). -/
structure BookEntry where
  recvTime : ℕ
  msgSeqNum : ℕ
  transactTime : ℕ
  sendingTime : ℕ
  securityID : ℤ
  pxMantissa : ℤ
  pxExponent : ℤ
  side : Char
  displayQty : ℤ
  orderID : ℕ
  orderUpdateAction : ℕ
  priority : ℕ
  lastQuote : Bool
  endOfEvent : Bool
  recovery : Bool

/-- The arguments of `MDIncrementalRefreshTradeSummary`, MBO. -/
structure TradeEntry where
  recvTime : ℕ
  msgSeqNum : ℕ
  transactTime : ℕ
  sendingTime : ℕ
  lastQty : ℤ
  orderID : ℕ
  lastTrade : Bool
  endOfEvent : Bool

/-- The arguments of `SnapshotFullRefreshOrderBook`. -/
structure SnapshotEntry where
  transactTime : ℕ
  sendingTime : ℕ
  securityID : ℤ
  displayQty : ℤ
  pxMantissa : ℤ
  pxExponent : ℤ
  side : Char
  priority : ℕ
  orderID : ℕ

/-- `l3_mbo_v2_t` with what the books do not read. -/
structure MboRecord (Px : Type) extends Mbo Px where
  handlerendtim : ℕ
  ingressQlen : ℕ
  pktEntryIdx : ℕ
  pktSeqNum : ℕ
  priority : ℕ
  lastQuote : Bool

/-- `l3_mbo_trd_v2_t` with what the books do not read. -/
structure TradeRecord extends MboTrd where
  handlerendtim : ℕ
  ingressQlen : ℕ
  pktEntryIdx : ℕ
  pktSeqNum : ℕ
  lastTrade : Bool

/-- The alternatives of `Data::l3` that the callbacks make. -/
inductive Record (Px : Type) where
  | mbo (r : MboRecord Px)
  | mboTrd (r : TradeRecord)
  | chr (venue : ℕ)
  | gap (venue : ℕ)
  | eop (msgSeqNum sendingTime : ℕ)

/-- A record given to the recorder, or to a book. -/
inductive Sent (Px : Type) where
  | binrec (r : Record Px)
  | book (b : ℕ) (r : Record Px)

/-! ### The handler -/

/-- What is fixed for a run: the venue, the switch, the recorder, the books by asset and the
    assets by instrument. -/
structure Cfg (Px : Type) where
  xchg : ℕ
  disableMbo : Bool
  binrec : Bool
  toPrice : ℤ → ℤ → Px
  mboOrderBooks : List (Option ℕ)
  securityidToAssetId : Map ℤ ℤ

/-- The members the callbacks write. -/
structure State where
  orderidToSecurityid : Map ℕ ℤ := ∅
  ingressQlen : ℕ := 0
  pktEntryIdx : ℕ := 0

/-- The book of an instrument: none for one that has no asset, and none for an asset without
    a book. -/
def Cfg.bookOf (cfg : Cfg Px) (securityID : ℤ) : Option ℕ :=
  (cfg.securityidToAssetId.lookup securityID).bind fun assetId =>
    if 0 ≤ assetId then (cfg.mboOrderBooks[assetId.toNat]?).join else none

/-- The recorder comes before the books. -/
def Cfg.emit (cfg : Cfg Px) (r : Record Px) (books : List ℕ) : List (Sent Px) :=
  (if cfg.binrec then [.binrec r] else []) ++ books.map fun b => .book b r

/-- All the books. -/
def Cfg.allBooks (cfg : Cfg Px) : List ℕ := cfg.mboOrderBooks.filterMap id

/-- What goes to every book comes to the recorder last. -/
def Cfg.emitAll (cfg : Cfg Px) (r : Record Px) : List (Sent Px) :=
  (cfg.allBooks.map fun b => .book b r) ++ if cfg.binrec then [.binrec r] else []

/-- `pkt_entry_idx_++`. -/
def State.countEntry (s : State) : State :=
  { s with pktEntryIdx := (s.pktEntryIdx + 1) % 2 ^ 32 }

def State.mboRecord (cfg : Cfg Px) (s : State) (e : BookEntry) : MboRecord Px where
  venue := cfg.xchg
  transactTime := e.transactTime
  sendingTime := e.sendingTime
  orderUpdateAction := e.orderUpdateAction
  securityID := e.securityID
  orderID := e.orderID
  pxd := cfg.toPrice e.pxMantissa e.pxExponent
  displayQty := toUint32 e.displayQty
  displayQty_lt := toUint32_lt e.displayQty
  side := e.side
  endOfEvent := e.endOfEvent
  recovery := e.recovery
  handlerendtim := e.recvTime
  ingressQlen := s.ingressQlen
  pktEntryIdx := s.pktEntryIdx
  pktSeqNum := e.msgSeqNum
  priority := e.priority
  lastQuote := e.lastQuote

def State.tradeRecord (cfg : Cfg Px) (s : State) (e : TradeEntry) : TradeRecord where
  venue := cfg.xchg
  transactTime := e.transactTime
  sendingTime := e.sendingTime
  lastQty := e.lastQty
  orderID := e.orderID
  endOfEvent := e.endOfEvent
  handlerendtim := e.recvTime
  ingressQlen := s.ingressQlen
  pktEntryIdx := s.pktEntryIdx
  pktSeqNum := e.msgSeqNum
  lastTrade := e.lastTrade

/-- A snapshot entry is a New; what it does not set is zero. -/
def Cfg.snapshotRecord (cfg : Cfg Px) (e : SnapshotEntry) : MboRecord Px where
  venue := cfg.xchg
  transactTime := e.transactTime
  sendingTime := e.sendingTime
  orderUpdateAction := 0
  securityID := e.securityID
  orderID := e.orderID
  pxd := cfg.toPrice e.pxMantissa e.pxExponent
  displayQty := toUint32 e.displayQty
  displayQty_lt := toUint32_lt e.displayQty
  side := e.side
  endOfEvent := false
  recovery := true
  handlerendtim := 0
  ingressQlen := 0
  pktEntryIdx := 0
  pktSeqNum := 0
  priority := e.priority
  lastQuote := false

/-- `MDIncrementalRefreshBook`, MBO. -/
def State.mdIncrementalRefreshBook (cfg : Cfg Px) (s : State) (e : BookEntry) :
    State × List (Sent Px) :=
  if cfg.disableMbo then (s, [])
  else
    let r := s.mboRecord cfg e
    let s := s.countEntry
    let s :=
      if e.orderUpdateAction = 0 then
        { s with orderidToSecurityid := s.orderidToSecurityid.insert e.orderID e.securityID }
      else if e.orderUpdateAction = 2 then
        { s with orderidToSecurityid := s.orderidToSecurityid.erase e.orderID }
      else s
    (s, cfg.emit (.mbo r) (cfg.bookOf e.securityID).toList)

/-- `MDIncrementalRefreshTradeSummary`, MBO: the instrument is looked up from the order. -/
def State.mdIncrementalRefreshTradeSummary (cfg : Cfg Px) (s : State) (e : TradeEntry) :
    State × List (Sent Px) :=
  if cfg.disableMbo then (s, [])
  else
    let r := s.tradeRecord cfg e
    let book := (s.orderidToSecurityid.lookup e.orderID).bind cfg.bookOf
    (s.countEntry, cfg.emit (.mboTrd r) book.toList)

/-- `SnapshotFullRefreshOrderBook`. -/
def State.snapshotFullRefreshOrderBook (cfg : Cfg Px) (s : State) (e : SnapshotEntry) :
    State × List (Sent Px) :=
  ({ s with orderidToSecurityid := s.orderidToSecurityid.insert e.orderID e.securityID },
    cfg.emit (.mbo (cfg.snapshotRecord e)) (cfg.bookOf e.securityID).toList)

/-- The callbacks. -/
inductive Callback where
  | mdIncrementalRefreshBook (e : BookEntry)
  | mdIncrementalRefreshTradeSummary (e : TradeEntry)
  | snapshotFullRefreshOrderBook (e : SnapshotEntry)
  | channelReset
  | gap
  | setIngressQlen (qlen : ℕ)
  | endOfPacket (msgSeqNum sendingTime : ℕ)

/-- One callback. -/
def handle (cfg : Cfg Px) (s : State) : Callback → State × List (Sent Px)
  | .mdIncrementalRefreshBook e => s.mdIncrementalRefreshBook cfg e
  | .mdIncrementalRefreshTradeSummary e => s.mdIncrementalRefreshTradeSummary cfg e
  | .snapshotFullRefreshOrderBook e => s.snapshotFullRefreshOrderBook cfg e
  | .channelReset => (s, cfg.emitAll (.chr cfg.xchg))
  | .gap => (s, cfg.emitAll (.gap cfg.xchg))
  | .setIngressQlen qlen => ({ s with ingressQlen := qlen }, [])
  | .endOfPacket msgSeqNum sendingTime =>
      ({ s with pktEntryIdx := 0 }, cfg.emit (.eop msgSeqNum sendingTime) [])

end KasparHft.HandlerIf
