import Mathlib.Data.Int.Notation
import Mathlib.Data.List.Basic

/-!
# Decoding market data

`msg_decoder.hpp`: five decoders go through the groups of a message and call the feed handler back
once for each entry.  The orders of a book message name the entry they belong to by its number,
and are joined with what was collected of the entries.

The generated SBE codec is no part of the source.  A message is what it returns: the fields the
decoders read, and the entries of each group in wire order.
-/

namespace KasparHft.MsgDecoder

/-! ### Messages -/

/-- `mDEntryPx`. -/
structure MDEntryPx where
  mantissa : Int64
  exponent : Int8
deriving DecidableEq

/-- The bits of `matchEventIndicator` that are handed on. -/
structure MatchEventIndicator where
  (lastTradeMsg lastQuoteMsg endOfEvent recoveryMsg : Bool)
deriving DecidableEq

/-- `settlPriceType`. -/
structure SettlPriceType where
  (finalDaily intraday : Bool)
deriving DecidableEq

/-- An entry of `noMDEntries` of `MDIncrementalRefreshBook46`. -/
structure BookEntry46 where
  securityID : Int32
  mDEntryPx : MDEntryPx
  rptSeq : UInt32
  mDEntryType : UInt8
  mDEntrySize : Int32
  numberOfOrders : Int32
  mDPriceLevel : UInt8
deriving DecidableEq

/-- An entry of `noOrderIDEntries` of `MDIncrementalRefreshBook46`. -/
structure OrderEntry46 where
  mDDisplayQty : Int32
  orderID : UInt64
  orderUpdateAction : UInt8
  mDOrderPriority : UInt64
  referenceID : UInt8
deriving DecidableEq

structure MDIncrementalRefreshBook46 where
  transactTime : UInt64
  matchEventIndicator : MatchEventIndicator
  noMDEntries : List BookEntry46
  noOrderIDEntries : List OrderEntry46

structure OrderBookEntry47 where
  mDDisplayQty : Int32
  orderID : UInt64
  mDUpdateAction : UInt8
  mDEntryType : UInt8
  mDOrderPriority : UInt64
  mDEntryPx : MDEntryPx
  securityID : Int32
deriving DecidableEq

structure MDIncrementalRefreshOrderBook47 where
  transactTime : UInt64
  matchEventIndicator : MatchEventIndicator
  noMDEntries : List OrderBookEntry47

structure TradeEntry48 where
  securityID : Int32
  mDEntryPx : MDEntryPx
  mDEntryType : UInt8
  aggressorSide : UInt8
  mDEntrySize : Int32
  numberOfOrders : Int32
deriving DecidableEq

structure TradeOrderEntry48 where
  lastQty : Int32
  orderID : UInt64
deriving DecidableEq

structure MDIncrementalRefreshTradeSummary48 where
  transactTime : UInt64
  matchEventIndicator : MatchEventIndicator
  noMDEntries : List TradeEntry48
  noOrderIDEntries : List TradeOrderEntry48

structure DailyStatisticsEntry49 where
  securityID : Int32
  mDEntryPx : MDEntryPx
  mDEntrySize : Int32
  mDEntryType : UInt8
  settlPriceType : SettlPriceType
  mDUpdateAction : UInt8
  tradingReferenceDate : UInt16
deriving DecidableEq

structure MDIncrementalRefreshDailyStatistics49 where
  transactTime : UInt64
  noMDEntries : List DailyStatisticsEntry49

structure SessionStatisticsEntry51 where
  securityID : Int32
  openCloseSettlFlagRaw : UInt8
  mDEntryPx : MDEntryPx
  mDUpdateActionRaw : UInt8
  mDEntryTypeRaw : UInt8
deriving DecidableEq

structure MDIncrementalRefreshSessionStatistics51 where
  transactTime : UInt64
  noMDEntries : List SessionStatisticsEntry51

/-! ### Callbacks -/

/-- The methods of `feed_handler_if` that are called, with their arguments. -/
inductive Callback where
  /-- `MDIncrementalRefreshBook`, of an entry. -/
  | mdIncrementalRefreshBook (recvTime : UInt64) (msgSeqNum : UInt32)
      (transactTime sendingTime : UInt64) (securityID : Int32) (pxMantissa : Int64)
      (pxExponent : Int8) (side : UInt8) (sz numorders : Int32) (pxlevel : UInt8)
      (endOfEvent recovery : Bool)
  /-- `MDIncrementalRefreshBook`, of an order. -/
  | mdIncrementalRefreshBookOrder (recvTime : UInt64) (msgSeqNum : UInt32)
      (transactTime sendingTime : UInt64) (securityID : Int32) (pxMantissa : Int64)
      (pxExponent : Int8) (side : UInt8) (displayQty : Int32) (orderID : UInt64)
      (orderUpdateAction : UInt8) (priority : UInt64) (lastQuote endOfEvent recovery : Bool)
  /-- `MDIncrementalRefreshTradeSummary`, of an entry. -/
  | mdIncrementalRefreshTradeSummary (recvTime : UInt64) (msgSeqNum : UInt32)
      (transactTime sendingTime : UInt64) (securityID : Int32) (pxMantissa : Int64)
      (pxExponent : Int8) (side aggressorSide : UInt8) (sz numorders : Int32)
      (lastTrade endofEvent : Bool)
  /-- `MDIncrementalRefreshTradeSummary`, of an order. -/
  | mdIncrementalRefreshTradeSummaryOrder (recvTime : UInt64) (msgSeqNum : UInt32)
      (transactTime sendingTime : UInt64) (lastQty : Int32) (orderID : UInt64)
      (lastTrade endofEvent : Bool)
  | mdIncrementalRefreshSessionStatistics (msgSeqNum : UInt32)
      (transactTime sendingTime : UInt64) (secid : UInt32) (openCloseSettleFlag : UInt8)
      (pxMantissa pxExponent : Int64) (updateAction entryType : UInt8)
  | mdIncrementalRefreshDailyStatistics (msgSeqNum : UInt32)
      (transactTime sendingTime : UInt64) (secid : UInt32) (pxMantissa : Int64)
      (pxExponent : Int8) (size : Int32) (side : UInt8) (finalDaily intraday : Bool)
      (updateAction : UInt8) (tradingReferenceDate : UInt16)
deriving DecidableEq

/-- `repg1_t`. -/
structure RepG1 where
  secid : Int32
  pxMantissa : Int64
  pxExponent : Int8
  seq : UInt32
  side : UInt8
  sz : UInt32
  numorders : Int32
  pxlevel : UInt8

/-- The callbacks of a decoder, how many entries it collects in `g1`, and the indices at which
    `g1` is read. -/
structure Decoding where
  callbacks : List Callback
  collected : ℕ := 0
  reads : List ℤ := []

/-! ### The decoders -/

section Decoders

variable (ts : UInt64) (msgSeqNum : UInt32) (sendingTime : UInt64)

/-- The loop over a group: the entries that are left. -/
def eachEntry {ε : Type} (call : ε → Callback) : List ε → List Callback → List Callback
  | [], cb => cb
  | e :: entries, cb => eachEntry call entries (cb ++ [call e])

def decodeMDIncrementalRefreshDailyStatistics49 (stats : MDIncrementalRefreshDailyStatistics49) :
    Decoding :=
  let txtim := stats.transactTime
  { callbacks := eachEntry (fun e =>
      .mdIncrementalRefreshDailyStatistics msgSeqNum txtim sendingTime e.securityID.toUInt32
        e.mDEntryPx.mantissa e.mDEntryPx.exponent e.mDEntrySize e.mDEntryType
        e.settlPriceType.finalDaily e.settlPriceType.intraday e.mDUpdateAction
        e.tradingReferenceDate) stats.noMDEntries [] }

/-- What is kept of an entry. -/
def BookEntry46.repG1 (e : BookEntry46) : RepG1 where
  secid := e.securityID
  pxMantissa := e.mDEntryPx.mantissa
  pxExponent := e.mDEntryPx.exponent
  seq := e.rptSeq
  side := e.mDEntryType
  sz := e.mDEntrySize.toUInt32
  numorders := e.numberOfOrders
  pxlevel := e.mDPriceLevel

/-- The first loop of `decode_MDIncrementalRefreshBook46`: the entries that are left. -/
def book46 (txtim : UInt64) (matchevent : MatchEventIndicator) :
    List BookEntry46 → List RepG1 → List Callback → List RepG1 × List Callback
  | [], g1, cb => (g1, cb)
  | e :: noMDEntries, g1, cb =>
      let g := e.repG1
      book46 txtim matchevent noMDEntries (g1 ++ [g]) (cb ++
        [.mdIncrementalRefreshBook ts msgSeqNum txtim sendingTime g.secid g.pxMantissa
          g.pxExponent g.side g.sz.toInt32 g.numorders g.pxlevel matchevent.endOfEvent
          matchevent.recoveryMsg])

/-- `g1[i]`, which is not checked; `outside` is what lies before it and behind it. -/
def at46 (outside : ℤ → RepG1) (g1 : List RepG1) (i : ℤ) : RepG1 :=
  if 0 ≤ i then (g1[i.toNat]?).getD (outside i) else outside i

/-- The second loop: the orders that are left. -/
def orders46 (outside : ℤ → RepG1) (txtim : UInt64) (matchevent : MatchEventIndicator)
    (g1 : List RepG1) : List OrderEntry46 → List Callback → List ℤ → List Callback × List ℤ
  | [], cb, reads => (cb, reads)
  | o :: oidentries, cb, reads =>
      let i : ℤ := o.referenceID.toNat - 1
      let g := at46 outside g1 i
      orders46 outside txtim matchevent g1 oidentries (cb ++
        [.mdIncrementalRefreshBookOrder ts msgSeqNum txtim sendingTime g.secid g.pxMantissa
          g.pxExponent g.side o.mDDisplayQty o.orderID o.orderUpdateAction o.mDOrderPriority
          matchevent.lastQuoteMsg matchevent.endOfEvent matchevent.recoveryMsg])
        (reads ++ [i])

def decodeMDIncrementalRefreshBook46 (outside : ℤ → RepG1) (incr : MDIncrementalRefreshBook46) :
    Decoding :=
  let txtim := incr.transactTime
  let matchevent := incr.matchEventIndicator
  let (g1, cb) := book46 ts msgSeqNum sendingTime txtim matchevent incr.noMDEntries [] []
  let (cb, reads) :=
    orders46 ts msgSeqNum sendingTime outside txtim matchevent g1 incr.noOrderIDEntries cb []
  ⟨cb, g1.length, reads⟩

def decodeMDIncrementalRefreshTradeSummary48 (trade : MDIncrementalRefreshTradeSummary48) :
    Decoding :=
  let txtim := trade.transactTime
  let matchevent := trade.matchEventIndicator
  let cb := eachEntry (fun e =>
    .mdIncrementalRefreshTradeSummary ts msgSeqNum txtim sendingTime e.securityID
      e.mDEntryPx.mantissa e.mDEntryPx.exponent e.mDEntryType e.aggressorSide e.mDEntrySize
      e.numberOfOrders matchevent.lastTradeMsg matchevent.endOfEvent) trade.noMDEntries []
  { callbacks := eachEntry (fun o =>
      .mdIncrementalRefreshTradeSummaryOrder ts msgSeqNum txtim sendingTime o.lastQty o.orderID
        matchevent.lastTradeMsg matchevent.endOfEvent) trade.noOrderIDEntries cb }

/-- The exponent of the price is read from its mantissa. -/
def decodeMDIncrementalRefreshSessionStatistics51
    (stats : MDIncrementalRefreshSessionStatistics51) : Decoding :=
  let txtim := stats.transactTime
  { callbacks := eachEntry (fun e =>
      let pxMantissa := e.mDEntryPx.mantissa
      let pxExponent := e.mDEntryPx.mantissa
      .mdIncrementalRefreshSessionStatistics msgSeqNum txtim sendingTime e.securityID.toUInt32
        e.openCloseSettlFlagRaw pxMantissa pxExponent e.mDUpdateActionRaw e.mDEntryTypeRaw)
      stats.noMDEntries [] }

def decodeMDIncrementalRefreshOrderBook47 (incr : MDIncrementalRefreshOrderBook47) : Decoding :=
  let txtim := incr.transactTime
  let matchevent := incr.matchEventIndicator
  { callbacks := eachEntry (fun e =>
      .mdIncrementalRefreshBookOrder ts msgSeqNum txtim sendingTime e.securityID
        e.mDEntryPx.mantissa e.mDEntryPx.exponent e.mDEntryType e.mDDisplayQty e.orderID
        e.mDUpdateAction e.mDOrderPriority matchevent.lastQuoteMsg matchevent.endOfEvent
        matchevent.recoveryMsg) incr.noMDEntries [] }

/-- The messages of the five templates. -/
inductive Message where
  | book46 (incr : MDIncrementalRefreshBook46)
  | orderBook47 (incr : MDIncrementalRefreshOrderBook47)
  | tradeSummary48 (trade : MDIncrementalRefreshTradeSummary48)
  | dailyStatistics49 (stats : MDIncrementalRefreshDailyStatistics49)
  | sessionStatistics51 (stats : MDIncrementalRefreshSessionStatistics51)

/-- The decoder of a message. -/
def decode (outside : ℤ → RepG1) : Message → Decoding
  | .book46 incr => decodeMDIncrementalRefreshBook46 ts msgSeqNum sendingTime outside incr
  | .orderBook47 incr => decodeMDIncrementalRefreshOrderBook47 ts msgSeqNum sendingTime incr
  | .tradeSummary48 trade => decodeMDIncrementalRefreshTradeSummary48 ts msgSeqNum sendingTime trade
  | .dailyStatistics49 stats =>
      decodeMDIncrementalRefreshDailyStatistics49 msgSeqNum sendingTime stats
  | .sessionStatistics51 stats =>
      decodeMDIncrementalRefreshSessionStatistics51 msgSeqNum sendingTime stats

end Decoders

/-! ### Fidelity -/

/-- The entry that an order names, counted from one. -/
def MDIncrementalRefreshBook46.named (incr : MDIncrementalRefreshBook46) (o : OrderEntry46) :
    Option BookEntry46 :=
  if o.referenceID = 0 then none else incr.noMDEntries[o.referenceID.toNat - 1]?

section Wanted

variable (ts : UInt64) (msgSeqNum : UInt32) (sendingTime : UInt64)

/-- What is wanted of the decoders: a callback for each entry with its own fields, and for each
    order with its own and those of the entry it names. -/
def Message.wanted : Message → List Callback
  | .book46 incr =>
      let event := incr.matchEventIndicator
      (incr.noMDEntries.map fun e =>
        .mdIncrementalRefreshBook ts msgSeqNum incr.transactTime sendingTime e.securityID
          e.mDEntryPx.mantissa e.mDEntryPx.exponent e.mDEntryType e.mDEntrySize e.numberOfOrders
          e.mDPriceLevel event.endOfEvent event.recoveryMsg) ++
      incr.noOrderIDEntries.filterMap fun o => (incr.named o).map fun e =>
        .mdIncrementalRefreshBookOrder ts msgSeqNum incr.transactTime sendingTime e.securityID
          e.mDEntryPx.mantissa e.mDEntryPx.exponent e.mDEntryType o.mDDisplayQty o.orderID
          o.orderUpdateAction o.mDOrderPriority event.lastQuoteMsg event.endOfEvent
          event.recoveryMsg
  | .orderBook47 incr =>
      let event := incr.matchEventIndicator
      incr.noMDEntries.map fun e =>
        .mdIncrementalRefreshBookOrder ts msgSeqNum incr.transactTime sendingTime e.securityID
          e.mDEntryPx.mantissa e.mDEntryPx.exponent e.mDEntryType e.mDDisplayQty e.orderID
          e.mDUpdateAction e.mDOrderPriority event.lastQuoteMsg event.endOfEvent
          event.recoveryMsg
  | .tradeSummary48 trade =>
      let event := trade.matchEventIndicator
      (trade.noMDEntries.map fun e =>
        .mdIncrementalRefreshTradeSummary ts msgSeqNum trade.transactTime sendingTime
          e.securityID e.mDEntryPx.mantissa e.mDEntryPx.exponent e.mDEntryType e.aggressorSide
          e.mDEntrySize e.numberOfOrders event.lastTradeMsg event.endOfEvent) ++
      trade.noOrderIDEntries.map fun o =>
        .mdIncrementalRefreshTradeSummaryOrder ts msgSeqNum trade.transactTime sendingTime
          o.lastQty o.orderID event.lastTradeMsg event.endOfEvent
  | .dailyStatistics49 stats =>
      stats.noMDEntries.map fun e =>
        .mdIncrementalRefreshDailyStatistics msgSeqNum stats.transactTime sendingTime
          e.securityID.toUInt32 e.mDEntryPx.mantissa e.mDEntryPx.exponent e.mDEntrySize
          e.mDEntryType e.settlPriceType.finalDaily e.settlPriceType.intraday e.mDUpdateAction
          e.tradingReferenceDate
  | .sessionStatistics51 stats =>
      stats.noMDEntries.map fun e =>
        .mdIncrementalRefreshSessionStatistics msgSeqNum stats.transactTime sendingTime
          e.securityID.toUInt32 e.openCloseSettlFlagRaw e.mDEntryPx.mantissa
          e.mDEntryPx.exponent.toInt64 e.mDUpdateActionRaw e.mDEntryTypeRaw

end Wanted

/-- Nothing outside what is collected is read. -/
def Decoding.Inside (d : Decoding) : Prop := ∀ i ∈ d.reads, 0 ≤ i ∧ i < d.collected

/-- Every order names an entry; every mantissa of session statistics is its exponent. -/
def Message.Decodable : Message → Prop
  | .book46 incr => ∀ o ∈ incr.noOrderIDEntries,
      1 ≤ o.referenceID.toNat ∧ o.referenceID.toNat ≤ incr.noMDEntries.length
  | .sessionStatistics51 stats => ∀ e ∈ stats.noMDEntries,
      e.mDEntryPx.mantissa = e.mDEntryPx.exponent.toInt64
  | .orderBook47 _ | .tradeSummary48 _ | .dailyStatistics49 _ => True

theorem eachEntry_eq {ε : Type} (call : ε → Callback) (entries : List ε) (cb : List Callback) :
    eachEntry call entries cb = cb ++ entries.map call := by
  induction entries generalizing cb with
  | nil => rw [eachEntry, List.map_nil, List.append_nil]
  | cons e entries ih =>
      rw [eachEntry, ih, List.append_assoc]
      rfl

section Book46

variable (ts : UInt64) (msgSeqNum : UInt32) (sendingTime : UInt64) (outside : ℤ → RepG1)

/-- The first loop collects the entries, and calls back for each. -/
theorem book46_eq (txtim : UInt64) (matchevent : MatchEventIndicator)
    (entries : List BookEntry46) (g1 : List RepG1) (cb : List Callback) :
    book46 ts msgSeqNum sendingTime txtim matchevent entries g1 cb =
      (g1 ++ entries.map BookEntry46.repG1, cb ++ entries.map fun e =>
        .mdIncrementalRefreshBook ts msgSeqNum txtim sendingTime e.securityID
          e.mDEntryPx.mantissa e.mDEntryPx.exponent e.mDEntryType e.mDEntrySize e.numberOfOrders
          e.mDPriceLevel matchevent.endOfEvent matchevent.recoveryMsg) := by
  induction entries generalizing g1 cb with
  | nil => simp [book46]
  | cons e entries ih =>
      rw [book46, ih, List.append_assoc, List.append_assoc]
      simp [BookEntry46.repG1]

/-- The second loop reads for each order, and calls back. -/
theorem orders46_eq (txtim : UInt64) (matchevent : MatchEventIndicator) (g1 : List RepG1)
    (orders : List OrderEntry46) (cb : List Callback) (reads : List ℤ) :
    orders46 ts msgSeqNum sendingTime outside txtim matchevent g1 orders cb reads =
      (cb ++ orders.map fun o =>
        let g := at46 outside g1 (o.referenceID.toNat - 1)
        .mdIncrementalRefreshBookOrder ts msgSeqNum txtim sendingTime g.secid g.pxMantissa
          g.pxExponent g.side o.mDDisplayQty o.orderID o.orderUpdateAction o.mDOrderPriority
          matchevent.lastQuoteMsg matchevent.endOfEvent matchevent.recoveryMsg,
        reads ++ orders.map fun o => (o.referenceID.toNat : ℤ) - 1) := by
  induction orders generalizing cb reads with
  | nil => simp [orders46]
  | cons o orders ih =>
      rw [orders46, ih, List.append_assoc, List.append_assoc]
      rfl

/-- An order that names an entry finds it. -/
theorem at46_named {incr : MDIncrementalRefreshBook46} {o : OrderEntry46}
    (hone : 1 ≤ o.referenceID.toNat) (hlast : o.referenceID.toNat ≤ incr.noMDEntries.length) :
    ∃ e, incr.named o = some e ∧
      at46 outside (incr.noMDEntries.map BookEntry46.repG1) (o.referenceID.toNat - 1) =
        e.repG1 := by
  have hlt : o.referenceID.toNat - 1 < incr.noMDEntries.length := by omega
  have hzero : ¬ o.referenceID = 0 := by
    intro h
    rw [h] at hone
    exact absurd hone (by decide)
  have hindex : ((o.referenceID.toNat : ℤ) - 1).toNat = o.referenceID.toNat - 1 := by omega
  refine ⟨incr.noMDEntries[o.referenceID.toNat - 1], ?_, ?_⟩
  · rw [MDIncrementalRefreshBook46.named, if_neg hzero, List.getElem?_eq_getElem hlt]
  · rw [at46, if_pos (by omega), hindex, List.getElem?_map, List.getElem?_eq_getElem hlt]
    rfl

theorem decodeBook46_inside_iff (incr : MDIncrementalRefreshBook46) :
    (decodeMDIncrementalRefreshBook46 ts msgSeqNum sendingTime outside incr).Inside ↔
      (Message.book46 incr).Decodable := by
  rw [decodeMDIncrementalRefreshBook46, book46_eq]
  dsimp only
  rw [orders46_eq]
  simp only [Decoding.Inside, Message.Decodable, List.nil_append, List.forall_mem_map,
    List.length_map]
  refine forall₂_congr fun o _ => ?_
  omega

theorem decodeBook46_wanted {incr : MDIncrementalRefreshBook46}
    (h : (Message.book46 incr).Decodable) :
    (decodeMDIncrementalRefreshBook46 ts msgSeqNum sendingTime outside incr).callbacks =
      (Message.book46 incr).wanted ts msgSeqNum sendingTime := by
  rw [decodeMDIncrementalRefreshBook46, book46_eq]
  dsimp only
  rw [orders46_eq]
  dsimp only [Message.wanted]
  rw [List.nil_append, List.nil_append]
  refine congrArg _ ?_
  rw [← List.filterMap_eq_map]
  refine List.filterMap_congr fun o ho => ?_
  obtain ⟨hone, hlast⟩ := h o ho
  obtain ⟨e, hnamed, hat⟩ := at46_named outside hone hlast
  rw [hnamed, Function.comp_apply, hat]
  rfl

end Book46

/-- The exponent handed on is the mantissa, so it is right where they are the same. -/
theorem decodeSessionStatistics51_iff (msgSeqNum : UInt32) (sendingTime : UInt64)
    (stats : MDIncrementalRefreshSessionStatistics51) :
    (decodeMDIncrementalRefreshSessionStatistics51 msgSeqNum sendingTime stats).callbacks =
        (Message.sessionStatistics51 stats).wanted 0 msgSeqNum sendingTime ↔
      (Message.sessionStatistics51 stats).Decodable := by
  unfold decodeMDIncrementalRefreshSessionStatistics51
  dsimp only
  rw [eachEntry_eq, List.nil_append]
  simp only [Message.wanted, Message.Decodable, List.map_inj_left]
  refine forall₂_congr fun e _ => ?_
  simp

/-- **When decoding is faithful**: the callbacks are those that are wanted, and nothing is read
    outside what is collected. -/
theorem decode_faithful_iff (outside : ℤ → RepG1) (ts : UInt64) (msgSeqNum : UInt32)
    (sendingTime : UInt64) (message : Message) :
    (decode ts msgSeqNum sendingTime outside message).callbacks =
          message.wanted ts msgSeqNum sendingTime ∧
        (decode ts msgSeqNum sendingTime outside message).Inside ↔
      message.Decodable := by
  cases message with
  | book46 incr =>
      have hinside := decodeBook46_inside_iff ts msgSeqNum sendingTime outside incr
      refine ⟨fun h => hinside.mp h.2, fun h => ⟨?_, hinside.mpr h⟩⟩
      exact decodeBook46_wanted ts msgSeqNum sendingTime outside h
  | orderBook47 incr =>
      refine iff_of_true ⟨?_, fun i hi => by cases hi⟩ trivial
      exact eachEntry_eq _ _ _
  | tradeSummary48 trade =>
      refine iff_of_true ⟨?_, fun i hi => by cases hi⟩ trivial
      exact (eachEntry_eq _ _ _).trans (congrArg (· ++ _) (eachEntry_eq _ _ _))
  | dailyStatistics49 stats =>
      refine iff_of_true ⟨?_, fun i hi => by cases hi⟩ trivial
      exact eachEntry_eq _ _ _
  | sessionStatistics51 stats =>
      rw [← decodeSessionStatistics51_iff msgSeqNum sendingTime stats]
      exact ⟨fun h => h.1, fun h => ⟨h, fun i hi => by cases hi⟩⟩

/-- A settlement price of 1.25 comes with an exponent of 1250000000; and the order of a message
    without entries is joined with what lies outside. -/
theorem session_price_and_order_wrong :
    (∀ outside, (decode 0 1 2 outside (.sessionStatistics51 ⟨3, [⟨4, 1, ⟨1250000000, -9⟩, 0,
        54⟩]⟩)).callbacks ≠
      Message.wanted 0 1 2 (.sessionStatistics51 ⟨3, [⟨4, 1, ⟨1250000000, -9⟩, 0, 54⟩]⟩)) ∧
    ∀ outside, ¬ (decode 0 1 2 outside (.book46 ⟨3, ⟨false, false, true, false⟩, [],
      [⟨5, 6, 0, 7, 1⟩]⟩)).Inside := by
  refine ⟨fun outside => ?_, fun outside h => ?_⟩
  · have hwrong : (decodeMDIncrementalRefreshSessionStatistics51 1 2 ⟨3, [⟨4, 1,
        ⟨1250000000, -9⟩, 0, 54⟩]⟩).callbacks ≠
        Message.wanted 0 1 2 (.sessionStatistics51 ⟨3, [⟨4, 1, ⟨1250000000, -9⟩, 0, 54⟩]⟩) := by
      decide +kernel
    exact hwrong
  · exact Int.lt_irrefl 0 (h 0 (List.mem_singleton_self _)).2

end KasparHft.MsgDecoder
