import KasparHft.Layout
import Mathlib.Data.Nat.Notation

/-!
# Records of a recording

`r_l3.hpp`: the types of records, each as the program has it and packed, as it stands in a file.
A packed record is here the tuple of its fields in their order, which a `Layout` puts one behind
another.  The fields that live only in the program are not packed, and are 0 once unpacked.

A `char` is a byte here, and a `double` its bits: records are only copied.
-/

namespace KasparHft.Bfile

/-- A `double`, as its bits. -/
abbrev Double := UInt64

/-! ### Market by order -/

/-- `l3_mbo_v2_t`. -/
structure L3MboV2 where
  (typ venue : UInt8)
  (transactTime sendingTime handlerendtim : UInt64)
  orderUpdateAction : UInt8
  securityID : Int32
  (orderID priority : UInt64)
  pxd : Double
  displayQty : UInt32
  side : UInt8
  (endOfEvent lastQuote recovery : Bool)
  (orderFlags visibilityGroup : UInt8)
  (ingressQlen pktEntryIdx pktSeqNum : UInt32)

abbrev L3MboV2Packed := UInt8 × UInt8 × UInt64 × UInt64 × UInt64 × UInt8 × Int32 × UInt64 ×
  UInt64 × Double × UInt32 × UInt8 × Bool × Bool × Bool × UInt8 × UInt8

def L3MboV2.toPacked (u : L3MboV2) : L3MboV2Packed :=
  (u.typ, u.venue, u.transactTime, u.sendingTime, u.handlerendtim, u.orderUpdateAction,
    u.securityID, u.orderID, u.priority, u.pxd, u.displayQty, u.side, u.endOfEvent, u.lastQuote,
    u.recovery, u.orderFlags, u.visibilityGroup)

def L3MboV2.fromPacked : L3MboV2Packed → L3MboV2
  | (typ, venue, transactTime, sendingTime, handlerendtim, orderUpdateAction, securityID, orderID,
      priority, pxd, displayQty, side, endOfEvent, lastQuote, recovery, orderFlags,
      visibilityGroup) =>
      { typ, venue, transactTime, sendingTime, handlerendtim, orderUpdateAction, securityID,
        orderID, priority, pxd, displayQty, side, endOfEvent, lastQuote, recovery, orderFlags,
        visibilityGroup, ingressQlen := 0, pktEntryIdx := 0, pktSeqNum := 0 }

/-- `l3_mbo_snap_t`. -/
structure L3MboSnap where
  (typ venue : UInt8)
  (transactTime sendingTime handlerendtim : UInt64)
  orderUpdateAction : UInt8
  securityID : Int32
  (orderID priority : UInt64)
  pxd : Double
  displayQty : UInt32
  side : UInt8
  (numReports currentChunk numChunks lastSeqNum msgSeqNum : UInt32)

abbrev L3MboSnapPacked := UInt8 × UInt8 × UInt64 × UInt64 × UInt64 × UInt8 × Int32 × UInt64 ×
  UInt64 × Double × UInt32 × UInt8 × UInt32 × UInt32 × UInt32 × UInt32 × UInt32

def L3MboSnap.toPacked (u : L3MboSnap) : L3MboSnapPacked :=
  (u.typ, u.venue, u.transactTime, u.sendingTime, u.handlerendtim, u.orderUpdateAction,
    u.securityID, u.orderID, u.priority, u.pxd, u.displayQty, u.side, u.numReports,
    u.currentChunk, u.numChunks, u.lastSeqNum, u.msgSeqNum)

def L3MboSnap.fromPacked : L3MboSnapPacked → L3MboSnap
  | (typ, venue, transactTime, sendingTime, handlerendtim, orderUpdateAction, securityID, orderID,
      priority, pxd, displayQty, side, numReports, currentChunk, numChunks, lastSeqNum,
      msgSeqNum) =>
      { typ, venue, transactTime, sendingTime, handlerendtim, orderUpdateAction, securityID,
        orderID, priority, pxd, displayQty, side, numReports, currentChunk, numChunks, lastSeqNum,
        msgSeqNum }

/-- `l3_mbo_trd_v2_t`. -/
structure L3MboTrdV2 where
  (typ venue : UInt8)
  (recvTime transactTime sendingTime handlerendtim : UInt64)
  lastQty : Int32
  orderID : UInt64
  (lastTrade endOfEvent : Bool)
  (ingressQlen pktEntryIdx pktSeqNum : UInt32)

abbrev L3MboTrdV2Packed := UInt8 × UInt8 × UInt64 × UInt64 × UInt64 × UInt64 × Int32 × UInt64 ×
  Bool × Bool

def L3MboTrdV2.toPacked (u : L3MboTrdV2) : L3MboTrdV2Packed :=
  (u.typ, u.venue, u.recvTime, u.transactTime, u.sendingTime, u.handlerendtim, u.lastQty,
    u.orderID, u.lastTrade, u.endOfEvent)

def L3MboTrdV2.fromPacked : L3MboTrdV2Packed → L3MboTrdV2
  | (typ, venue, recvTime, transactTime, sendingTime, handlerendtim, lastQty, orderID, lastTrade,
      endOfEvent) =>
      { typ, venue, recvTime, transactTime, sendingTime, handlerendtim, lastQty, orderID,
        lastTrade, endOfEvent, ingressQlen := 0, pktEntryIdx := 0, pktSeqNum := 0 }

/-! ### Market by price -/

/-- `l3_mbp_t`. -/
structure L3Mbp where
  (typ venue : UInt8)
  (transactTime sendingTime handlerendtim : UInt64)
  securityID : Int32
  pxd : Double
  side : UInt8
  (sz numorders : Int32)
  pxlevel : UInt8
  (endOfEvent recovery : Bool)

abbrev L3MbpPacked := UInt8 × UInt8 × UInt64 × UInt64 × UInt64 × Int32 × Double × UInt8 × Int32 ×
  Int32 × UInt8 × Bool × Bool

def L3Mbp.toPacked (u : L3Mbp) : L3MbpPacked :=
  (u.typ, u.venue, u.transactTime, u.sendingTime, u.handlerendtim, u.securityID, u.pxd, u.side,
    u.sz, u.numorders, u.pxlevel, u.endOfEvent, u.recovery)

def L3Mbp.fromPacked : L3MbpPacked → L3Mbp
  | (typ, venue, transactTime, sendingTime, handlerendtim, securityID, pxd, side, sz, numorders,
      pxlevel, endOfEvent, recovery) =>
      { typ, venue, transactTime, sendingTime, handlerendtim, securityID, pxd, side, sz,
        numorders, pxlevel, endOfEvent, recovery }

/-- `l3_mbp_trd_t`. -/
structure L3MbpTrd where
  (typ venue : UInt8)
  (transactTime sendingTime handlerendtim : UInt64)
  securityID : Int32
  pxd : Double
  (side aggresorSide : UInt8)
  (sz numorders : Int32)
  (endOfEvent lastTrade : Bool)

abbrev L3MbpTrdPacked := UInt8 × UInt8 × UInt64 × UInt64 × UInt64 × Int32 × Double × UInt8 ×
  UInt8 × Int32 × Int32 × Bool × Bool

def L3MbpTrd.toPacked (u : L3MbpTrd) : L3MbpTrdPacked :=
  (u.typ, u.venue, u.transactTime, u.sendingTime, u.handlerendtim, u.securityID, u.pxd, u.side,
    u.aggresorSide, u.sz, u.numorders, u.endOfEvent, u.lastTrade)

def L3MbpTrd.fromPacked : L3MbpTrdPacked → L3MbpTrd
  | (typ, venue, transactTime, sendingTime, handlerendtim, securityID, pxd, side, aggresorSide,
      sz, numorders, endOfEvent, lastTrade) =>
      { typ, venue, transactTime, sendingTime, handlerendtim, securityID, pxd, side, aggresorSide,
        sz, numorders, endOfEvent, lastTrade }

/-! ### The program itself -/

/-- `l3_som_t`. -/
structure L3Som where
  (typ venue : UInt8)
  name : Vector UInt8 256
  somcode : UInt8
  (somTimEpoch handlerendTimEpoch xordid : UInt64)
  sordid : UInt32
  symid : UInt16
  sz : UInt32
  side : UInt8
  px : Int32
  stbf : UInt32

abbrev L3SomPacked := UInt8 × UInt8 × Vector UInt8 256 × UInt8 × UInt64 × UInt64 × UInt64 ×
  UInt32 × UInt16 × UInt32 × UInt8 × Int32 × UInt32

def L3Som.toPacked (u : L3Som) : L3SomPacked :=
  (u.typ, u.venue, u.name, u.somcode, u.somTimEpoch, u.handlerendTimEpoch, u.xordid, u.sordid,
    u.symid, u.sz, u.side, u.px, u.stbf)

def L3Som.fromPacked : L3SomPacked → L3Som
  | (typ, venue, name, somcode, somTimEpoch, handlerendTimEpoch, xordid, sordid, symid, sz, side,
      px, stbf) =>
      { typ, venue, name, somcode, somTimEpoch, handlerendTimEpoch, xordid, sordid, symid, sz,
        side, px, stbf }

/-- `l3_volume_t`. -/
structure L3Volume where
  typ : UInt8
  t0 : UInt64
  (th400 th1000 th5000 : Int32)
  volSum : UInt32

abbrev L3VolumePacked := UInt8 × UInt64 × Int32 × Int32 × Int32 × UInt32

def L3Volume.toPacked (u : L3Volume) : L3VolumePacked :=
  (u.typ, u.t0, u.th400, u.th1000, u.th5000, u.volSum)

def L3Volume.fromPacked : L3VolumePacked → L3Volume
  | (typ, t0, th400, th1000, th5000, volSum) => { typ, t0, th400, th1000, th5000, volSum }

/-- `l3_interval_t`. -/
structure L3Interval where
  (typ venue id : UInt8)
  (tHandler t0 t1 : UInt64)

abbrev L3IntervalPacked := UInt8 × UInt8 × UInt8 × UInt64 × UInt64 × UInt64

def L3Interval.toPacked (u : L3Interval) : L3IntervalPacked :=
  (u.typ, u.venue, u.id, u.tHandler, u.t0, u.t1)

def L3Interval.fromPacked : L3IntervalPacked → L3Interval
  | (typ, venue, id, tHandler, t0, t1) => { typ, venue, id, tHandler, t0, t1 }

/-- `l3_qlen_t`. -/
structure L3Qlen where
  typ : UInt8
  t0 : UInt64
  name : Vector UInt8 64
  (size msg nvCtx vCtx : UInt32)

abbrev L3QlenPacked := UInt8 × UInt64 × Vector UInt8 64 × UInt32 × UInt32 × UInt32 × UInt32

def L3Qlen.toPacked (u : L3Qlen) : L3QlenPacked :=
  (u.typ, u.t0, u.name, u.size, u.msg, u.nvCtx, u.vCtx)

def L3Qlen.fromPacked : L3QlenPacked → L3Qlen
  | (typ, t0, name, size, msg, nvCtx, vCtx) => { typ, t0, name, size, msg, nvCtx, vCtx }

/-! ### Instruments -/

/-- `l3_vol_t`. -/
structure L3Vol where
  (typ venue : UInt8)
  (txtim sendtim : UInt64)
  (securityID vol : Int32)
  (vtyp action : UInt8)

abbrev L3VolPacked := UInt8 × UInt8 × UInt64 × UInt64 × Int32 × Int32 × UInt8 × UInt8

def L3Vol.toPacked (u : L3Vol) : L3VolPacked :=
  (u.typ, u.venue, u.txtim, u.sendtim, u.securityID, u.vol, u.vtyp, u.action)

def L3Vol.fromPacked : L3VolPacked → L3Vol
  | (typ, venue, txtim, sendtim, securityID, vol, vtyp, action) =>
      { typ, venue, txtim, sendtim, securityID, vol, vtyp, action }

/-- `l3_sst_t`. -/
structure L3Sst where
  (typ venue : UInt8)
  (txtim sendtim : UInt64)
  securityID : Int32
  (haltReason tradingStatus tradingEvent : UInt8)

abbrev L3SstPacked := UInt8 × UInt8 × UInt64 × UInt64 × Int32 × UInt8 × UInt8 × UInt8

def L3Sst.toPacked (u : L3Sst) : L3SstPacked :=
  (u.typ, u.venue, u.txtim, u.sendtim, u.securityID, u.haltReason, u.tradingStatus,
    u.tradingEvent)

def L3Sst.fromPacked : L3SstPacked → L3Sst
  | (typ, venue, txtim, sendtim, securityID, haltReason, tradingStatus, tradingEvent) =>
      { typ, venue, txtim, sendtim, securityID, haltReason, tradingStatus, tradingEvent }

/-- `l3_fdf_t`. -/
structure L3Fdf where
  (typ venue : UInt8)
  sym : Vector UInt8 24
  (asset cfiCode : Vector UInt8 8)
  (highLimitPx lowLimitPx pxvar : Double)
  securityID : Int32
  mDSecurityTradingStatus : UInt8
  (activation expiration : UInt64)
  securityGroup : Vector UInt8 8
  (marketSegmentID matchAlgorithm mainFraction : UInt8)
  minPriceIncrement : Double
  (priceDisplayFormat userDefinedInstrument updateAction : UInt8)
  dispFactor : Double
  subFraction : UInt8
  securityType : Vector UInt8 16
  maturityMont : UInt8
  maturityYear : UInt16
  (openInterestQty clearedVolume : Int32)
  tradingRefDate : UInt16
  unitOfMeasure : Vector UInt8 16
  unitOfMeasureQty : Double

abbrev L3FdfPacked := UInt8 × UInt8 × Vector UInt8 24 × Vector UInt8 8 × Vector UInt8 8 × Double ×
  Double × Double × Int32 × UInt8 × UInt64 × UInt64 × Vector UInt8 8 × UInt8 × UInt8 × UInt8 ×
  Double × UInt8 × UInt8 × UInt8 × Double × UInt8 × Vector UInt8 16 × UInt8 × UInt16 × Int32 ×
  Int32 × UInt16 × Vector UInt8 16 × Double

def L3Fdf.toPacked (u : L3Fdf) : L3FdfPacked :=
  (u.typ, u.venue, u.sym, u.asset, u.cfiCode, u.highLimitPx, u.lowLimitPx, u.pxvar, u.securityID,
    u.mDSecurityTradingStatus, u.activation, u.expiration, u.securityGroup, u.marketSegmentID,
    u.matchAlgorithm, u.mainFraction, u.minPriceIncrement, u.priceDisplayFormat,
    u.userDefinedInstrument, u.updateAction, u.dispFactor, u.subFraction, u.securityType,
    u.maturityMont, u.maturityYear, u.openInterestQty, u.clearedVolume, u.tradingRefDate,
    u.unitOfMeasure, u.unitOfMeasureQty)

def L3Fdf.fromPacked : L3FdfPacked → L3Fdf
  | (typ, venue, sym, asset, cfiCode, highLimitPx, lowLimitPx, pxvar, securityID,
      mDSecurityTradingStatus, activation, expiration, securityGroup, marketSegmentID,
      matchAlgorithm, mainFraction, minPriceIncrement, priceDisplayFormat, userDefinedInstrument,
      updateAction, dispFactor, subFraction, securityType, maturityMont, maturityYear,
      openInterestQty, clearedVolume, tradingRefDate, unitOfMeasure, unitOfMeasureQty) =>
      { typ, venue, sym, asset, cfiCode, highLimitPx, lowLimitPx, pxvar, securityID,
        mDSecurityTradingStatus, activation, expiration, securityGroup, marketSegmentID,
        matchAlgorithm, mainFraction, minPriceIncrement, priceDisplayFormat,
        userDefinedInstrument, updateAction, dispFactor, subFraction, securityType, maturityMont,
        maturityYear, openInterestQty, clearedVolume, tradingRefDate, unitOfMeasure,
        unitOfMeasureQty }

/-- `l3_odf_t`. -/
structure L3Odf where
  (typ venue : UInt8)
  sym : Vector UInt8 24
  (asset cfiCode : Vector UInt8 8)
  (highLimitPx lowLimitPx pxvar : Double)
  securityID : Int32
  mDSecurityTradingStatus : UInt8
  (activation expiration : UInt64)
  secGroup : Vector UInt8 8
  (marketSegmentID matchAlgorithm mainFraction : UInt8)
  (minPriceIncrement minCabPrice : Double)
  (priceDisplayFormat updateAction putOrCall : UInt8)
  strikePrice : Double
  userDefinedInstrument : UInt8
  tickRule : Int8
  noUnderlyingsCount : UInt8
  underlyingSecurityID : Vector UInt32 4
  dispFactor : Double
  subFraction : UInt8
  securityType : Vector UInt8 16
  maturityMont : UInt8
  maturityYear : UInt16
  (openInterestQty clearedVolume : Int32)
  tradingRefDate : UInt16
  unitOfMeasure : Vector UInt8 16
  unitOfMeasureQty : Double

abbrev L3OdfPacked := UInt8 × UInt8 × Vector UInt8 24 × Vector UInt8 8 × Vector UInt8 8 × Double ×
  Double × Double × Int32 × UInt8 × UInt64 × UInt64 × Vector UInt8 8 × UInt8 × UInt8 × UInt8 ×
  Double × Double × UInt8 × UInt8 × UInt8 × Double × UInt8 × Int8 × UInt8 × Vector UInt32 4 ×
  Double × UInt8 × Vector UInt8 16 × UInt8 × UInt16 × Int32 × Int32 × UInt16 × Vector UInt8 16 ×
  Double

def L3Odf.toPacked (u : L3Odf) : L3OdfPacked :=
  (u.typ, u.venue, u.sym, u.asset, u.cfiCode, u.highLimitPx, u.lowLimitPx, u.pxvar, u.securityID,
    u.mDSecurityTradingStatus, u.activation, u.expiration, u.secGroup, u.marketSegmentID,
    u.matchAlgorithm, u.mainFraction, u.minPriceIncrement, u.minCabPrice, u.priceDisplayFormat,
    u.updateAction, u.putOrCall, u.strikePrice, u.userDefinedInstrument, u.tickRule,
    u.noUnderlyingsCount, u.underlyingSecurityID, u.dispFactor, u.subFraction, u.securityType,
    u.maturityMont, u.maturityYear, u.openInterestQty, u.clearedVolume, u.tradingRefDate,
    u.unitOfMeasure, u.unitOfMeasureQty)

def L3Odf.fromPacked : L3OdfPacked → L3Odf
  | (typ, venue, sym, asset, cfiCode, highLimitPx, lowLimitPx, pxvar, securityID,
      mDSecurityTradingStatus, activation, expiration, secGroup, marketSegmentID, matchAlgorithm,
      mainFraction, minPriceIncrement, minCabPrice, priceDisplayFormat, updateAction, putOrCall,
      strikePrice, userDefinedInstrument, tickRule, noUnderlyingsCount, underlyingSecurityID,
      dispFactor, subFraction, securityType, maturityMont, maturityYear, openInterestQty,
      clearedVolume, tradingRefDate, unitOfMeasure, unitOfMeasureQty) =>
      { typ, venue, sym, asset, cfiCode, highLimitPx, lowLimitPx, pxvar, securityID,
        mDSecurityTradingStatus, activation, expiration, secGroup, marketSegmentID,
        matchAlgorithm, mainFraction, minPriceIncrement, minCabPrice, priceDisplayFormat,
        updateAction, putOrCall, strikePrice, userDefinedInstrument, tickRule, noUnderlyingsCount,
        underlyingSecurityID, dispFactor, subFraction, securityType, maturityMont, maturityYear,
        openInterestQty, clearedVolume, tradingRefDate, unitOfMeasure, unitOfMeasureQty }

/-- `l3_sdf_t`. -/
structure L3Sdf where
  (typ venue : UInt8)
  sym : Vector UInt8 24
  (asset cfiCode : Vector UInt8 8)
  (highLimitPx lowLimitPx : Double)
  securityID : Int32
  securityUpdateAction : UInt8
  (activation expiration : UInt64)
  secGroup : Vector UInt8 8
  (marketSegmentID mDSecurityTradingStatus matchAlgorithm mainFraction : UInt8)
  minPriceIncrement : Double
  (priceDisplayFormat userDefinedInstrument : UInt8)
  tickRule : Int8
  noLegsCount : UInt8
  (legOptionDelta legPrice : Vector Double 8)
  legRatioQty : Vector Int8 8
  legSecurityID : Vector Int32 8
  legSide : Vector UInt8 8
  dispFactor : Double
  subFraction : UInt8
  securityType : Vector UInt8 16
  maturityMont : UInt8
  maturityYear : UInt16
  (openInterestQty clearedVolume : Int32)
  tradingRefDate : UInt16
  unitOfMeasure : Vector UInt8 16

abbrev L3SdfPacked := UInt8 × UInt8 × Vector UInt8 24 × Vector UInt8 8 × Vector UInt8 8 × Double ×
  Double × Int32 × UInt8 × UInt64 × UInt64 × Vector UInt8 8 × UInt8 × UInt8 × UInt8 × UInt8 ×
  Double × UInt8 × UInt8 × Int8 × UInt8 × Vector Double 8 × Vector Double 8 × Vector Int8 8 ×
  Vector Int32 8 × Vector UInt8 8 × Double × UInt8 × Vector UInt8 16 × UInt8 × UInt16 × Int32 ×
  Int32 × UInt16 × Vector UInt8 16

def L3Sdf.toPacked (u : L3Sdf) : L3SdfPacked :=
  (u.typ, u.venue, u.sym, u.asset, u.cfiCode, u.highLimitPx, u.lowLimitPx, u.securityID,
    u.securityUpdateAction, u.activation, u.expiration, u.secGroup, u.marketSegmentID,
    u.mDSecurityTradingStatus, u.matchAlgorithm, u.mainFraction, u.minPriceIncrement,
    u.priceDisplayFormat, u.userDefinedInstrument, u.tickRule, u.noLegsCount, u.legOptionDelta,
    u.legPrice, u.legRatioQty, u.legSecurityID, u.legSide, u.dispFactor, u.subFraction,
    u.securityType, u.maturityMont, u.maturityYear, u.openInterestQty, u.clearedVolume,
    u.tradingRefDate, u.unitOfMeasure)

def L3Sdf.fromPacked : L3SdfPacked → L3Sdf
  | (typ, venue, sym, asset, cfiCode, highLimitPx, lowLimitPx, securityID, securityUpdateAction,
      activation, expiration, secGroup, marketSegmentID, mDSecurityTradingStatus, matchAlgorithm,
      mainFraction, minPriceIncrement, priceDisplayFormat, userDefinedInstrument, tickRule,
      noLegsCount, legOptionDelta, legPrice, legRatioQty, legSecurityID, legSide, dispFactor,
      subFraction, securityType, maturityMont, maturityYear, openInterestQty, clearedVolume,
      tradingRefDate, unitOfMeasure) =>
      { typ, venue, sym, asset, cfiCode, highLimitPx, lowLimitPx, securityID,
        securityUpdateAction, activation, expiration, secGroup, marketSegmentID,
        mDSecurityTradingStatus, matchAlgorithm, mainFraction, minPriceIncrement,
        priceDisplayFormat, userDefinedInstrument, tickRule, noLegsCount, legOptionDelta,
        legPrice, legRatioQty, legSecurityID, legSide, dispFactor, subFraction, securityType,
        maturityMont, maturityYear, openInterestQty, clearedVolume, tradingRefDate,
        unitOfMeasure }

/-- `l3_lim_t`. -/
structure L3Lim where
  (typ venue : UInt8)
  securityID : Int32
  (pxh pxl pxvar : Double)
  entryType : Vector UInt8 8

abbrev L3LimPacked := UInt8 × UInt8 × Int32 × Double × Double × Double × Vector UInt8 8

def L3Lim.toPacked (u : L3Lim) : L3LimPacked :=
  (u.typ, u.venue, u.securityID, u.pxh, u.pxl, u.pxvar, u.entryType)

def L3Lim.fromPacked : L3LimPacked → L3Lim
  | (typ, venue, securityID, pxh, pxl, pxvar, entryType) =>
      { typ, venue, securityID, pxh, pxl, pxvar, entryType }

/-! ### The channel -/

/-- `l3_gap_v2_t`. -/
structure L3GapV2 where
  (typ venue : UInt8)

abbrev L3GapV2Packed := UInt8 × UInt8

def L3GapV2.toPacked (u : L3GapV2) : L3GapV2Packed :=
  (u.typ, u.venue)

def L3GapV2.fromPacked : L3GapV2Packed → L3GapV2
  | (typ, venue) => { typ, venue }

/-- `l3_chr_v2_t`. -/
structure L3ChrV2 where
  (typ venue : UInt8)

abbrev L3ChrV2Packed := UInt8 × UInt8

def L3ChrV2.toPacked (u : L3ChrV2) : L3ChrV2Packed :=
  (u.typ, u.venue)

def L3ChrV2.fromPacked : L3ChrV2Packed → L3ChrV2
  | (typ, venue) => { typ, venue }

/-- `l3_eop_t`. -/
structure L3Eop where
  (typ venue : UInt8)
  msgSeqNum : UInt32
  sendingTime : UInt64

abbrev L3EopPacked := UInt8 × UInt8 × UInt32 × UInt64

def L3Eop.toPacked (u : L3Eop) : L3EopPacked :=
  (u.typ, u.venue, u.msgSeqNum, u.sendingTime)

def L3Eop.fromPacked : L3EopPacked → L3Eop
  | (typ, venue, msgSeqNum, sendingTime) => { typ, venue, msgSeqNum, sendingTime }

/-- `l3_eob_t`. -/
structure L3Eob where
  (typ venue : UInt8)

abbrev L3EobPacked := UInt8 × UInt8

def L3Eob.toPacked (u : L3Eob) : L3EobPacked :=
  (u.typ, u.venue)

def L3Eob.fromPacked : L3EobPacked → L3Eob
  | (typ, venue) => { typ, venue }

/-- `l3_sim_t`. -/
structure L3Sim where
  typ : UInt8

/-! ### Fenics -/

/-- `l3_fenics_sys_event_t`. -/
structure L3FenicsSysEvent where
  (typ venue eventCode : UInt8)

abbrev L3FenicsSysEventPacked := UInt8 × UInt8 × UInt8

def L3FenicsSysEvent.toPacked (u : L3FenicsSysEvent) : L3FenicsSysEventPacked :=
  (u.typ, u.venue, u.eventCode)

def L3FenicsSysEvent.fromPacked : L3FenicsSysEventPacked → L3FenicsSysEvent
  | (typ, venue, eventCode) => { typ, venue, eventCode }

/-- `l3_fenics_bdf_t`. -/
structure L3FenicsBdf where
  (typ venue : UInt8)
  instrumentLocate : UInt32
  instrumentId : UInt64
  enhancedSymbol : Vector UInt8 30
  industryIdentifier : Vector UInt8 12
  instrumentType : UInt8
  instrumentSubType : Vector UInt8 2
  (minimumOrderSize maximumOrderSize roundLotSize : UInt64)
  priceType : UInt16
  (decimalPriceTick fractionalPriceTick priceMultiplier : UInt64)
  symbolSuffix : Vector UInt8 10
  matchAlgorithm : UInt8
  mic : Vector UInt8 4
  cfiCode : Vector UInt8 6
  currency : Vector UInt8 3

abbrev L3FenicsBdfPacked := UInt8 × UInt8 × UInt32 × UInt64 × Vector UInt8 30 × Vector UInt8 12 ×
  UInt8 × Vector UInt8 2 × UInt64 × UInt64 × UInt64 × UInt16 × UInt64 × UInt64 × UInt64 ×
  Vector UInt8 10 × UInt8 × Vector UInt8 4 × Vector UInt8 6 × Vector UInt8 3

def L3FenicsBdf.toPacked (u : L3FenicsBdf) : L3FenicsBdfPacked :=
  (u.typ, u.venue, u.instrumentLocate, u.instrumentId, u.enhancedSymbol, u.industryIdentifier,
    u.instrumentType, u.instrumentSubType, u.minimumOrderSize, u.maximumOrderSize, u.roundLotSize,
    u.priceType, u.decimalPriceTick, u.fractionalPriceTick, u.priceMultiplier, u.symbolSuffix,
    u.matchAlgorithm, u.mic, u.cfiCode, u.currency)

def L3FenicsBdf.fromPacked : L3FenicsBdfPacked → L3FenicsBdf
  | (typ, venue, instrumentLocate, instrumentId, enhancedSymbol, industryIdentifier,
      instrumentType, instrumentSubType, minimumOrderSize, maximumOrderSize, roundLotSize,
      priceType, decimalPriceTick, fractionalPriceTick, priceMultiplier, symbolSuffix,
      matchAlgorithm, mic, cfiCode, currency) =>
      { typ, venue, instrumentLocate, instrumentId, enhancedSymbol, industryIdentifier,
        instrumentType, instrumentSubType, minimumOrderSize, maximumOrderSize, roundLotSize,
        priceType, decimalPriceTick, fractionalPriceTick, priceMultiplier, symbolSuffix,
        matchAlgorithm, mic, cfiCode, currency }

/-- `l3_fenics_trading_action_t`. -/
structure L3FenicsTradingAction where
  (typ venue : UInt8)
  instrumentLocate : UInt32
  instrumentId : UInt64
  tradingState : UInt8

abbrev L3FenicsTradingActionPacked := UInt8 × UInt8 × UInt32 × UInt64 × UInt8

def L3FenicsTradingAction.toPacked (u : L3FenicsTradingAction) : L3FenicsTradingActionPacked :=
  (u.typ, u.venue, u.instrumentLocate, u.instrumentId, u.tradingState)

def L3FenicsTradingAction.fromPacked : L3FenicsTradingActionPacked → L3FenicsTradingAction
  | (typ, venue, instrumentLocate, instrumentId, tradingState) =>
      { typ, venue, instrumentLocate, instrumentId, tradingState }

/-- `l3_fenics_instrumentstats_t`. -/
structure L3FenicsInstrumentstats where
  (typ venue : UInt8)
  timestamp : UInt64
  instrumentLocate : UInt32
  tradeVolume : UInt64
  (highPrice lowPrice : Int64)
  openOrders : Int32

abbrev L3FenicsInstrumentstatsPacked := UInt8 × UInt8 × UInt64 × UInt32 × UInt64 × Int64 × Int64 ×
  Int32

def L3FenicsInstrumentstats.toPacked (u : L3FenicsInstrumentstats) :
    L3FenicsInstrumentstatsPacked :=
  (u.typ, u.venue, u.timestamp, u.instrumentLocate, u.tradeVolume, u.highPrice, u.lowPrice,
    u.openOrders)

def L3FenicsInstrumentstats.fromPacked : L3FenicsInstrumentstatsPacked → L3FenicsInstrumentstats
  | (typ, venue, timestamp, instrumentLocate, tradeVolume, highPrice, lowPrice, openOrders) =>
      { typ, venue, timestamp, instrumentLocate, tradeVolume, highPrice, lowPrice, openOrders }

/-! ### Dealerweb -/

/-- `l3_dealerweb_bookdir_t`. -/
structure L3DealerwebBookdir where
  (typ venue : UInt8)
  timestampNanoseconds : UInt64
  orderBookID : UInt32
  symbol : Vector UInt8 20
  securityDescription : Vector UInt8 16
  cusip : Vector UInt8 9
  (product productSubtype priceType : UInt8)
  (priceDecimals yieldDecimals couponDecimals : UInt16)
  (quantityMultiplier maturity coupon datedDate issueDate auctionDate announcementDate
    firstCouponDate settlementDate index spread : UInt32)
  tradingFeatures : UInt16
  (minimumEntryQuantity minimumQuantityIncrement : UInt32)
  issuedasBenchmark : UInt16
  priceTickSize : UInt64
  shortSym : Vector UInt8 10

abbrev L3DealerwebBookdirPacked := UInt8 × UInt8 × UInt64 × UInt32 × Vector UInt8 20 ×
  Vector UInt8 16 × Vector UInt8 9 × UInt8 × UInt8 × UInt8 × UInt16 × UInt16 × UInt16 × UInt32 ×
  UInt32 × UInt32 × UInt32 × UInt32 × UInt32 × UInt32 × UInt32 × UInt32 × UInt32 × UInt32 ×
  UInt16 × UInt32 × UInt32 × UInt16 × UInt64 × Vector UInt8 10

def L3DealerwebBookdir.toPacked (u : L3DealerwebBookdir) : L3DealerwebBookdirPacked :=
  (u.typ, u.venue, u.timestampNanoseconds, u.orderBookID, u.symbol, u.securityDescription,
    u.cusip, u.product, u.productSubtype, u.priceType, u.priceDecimals, u.yieldDecimals,
    u.couponDecimals, u.quantityMultiplier, u.maturity, u.coupon, u.datedDate, u.issueDate,
    u.auctionDate, u.announcementDate, u.firstCouponDate, u.settlementDate, u.index, u.spread,
    u.tradingFeatures, u.minimumEntryQuantity, u.minimumQuantityIncrement, u.issuedasBenchmark,
    u.priceTickSize, u.shortSym)

def L3DealerwebBookdir.fromPacked : L3DealerwebBookdirPacked → L3DealerwebBookdir
  | (typ, venue, timestampNanoseconds, orderBookID, symbol, securityDescription, cusip, product,
      productSubtype, priceType, priceDecimals, yieldDecimals, couponDecimals, quantityMultiplier,
      maturity, coupon, datedDate, issueDate, auctionDate, announcementDate, firstCouponDate,
      settlementDate, index, spread, tradingFeatures, minimumEntryQuantity,
      minimumQuantityIncrement, issuedasBenchmark, priceTickSize, shortSym) =>
      { typ, venue, timestampNanoseconds, orderBookID, symbol, securityDescription, cusip,
        product, productSubtype, priceType, priceDecimals, yieldDecimals, couponDecimals,
        quantityMultiplier, maturity, coupon, datedDate, issueDate, auctionDate, announcementDate,
        firstCouponDate, settlementDate, index, spread, tradingFeatures, minimumEntryQuantity,
        minimumQuantityIncrement, issuedasBenchmark, priceTickSize, shortSym }

/-- `l3_dealerweb_sys_event_t`. -/
structure L3DealerwebSysEvent where
  (typ venue : UInt8)
  timestampNanoseconds : UInt64
  (eventCode eventReason : UInt8)
  orderBookID : UInt32

abbrev L3DealerwebSysEventPacked := UInt8 × UInt8 × UInt64 × UInt8 × UInt8 × UInt32

def L3DealerwebSysEvent.toPacked (u : L3DealerwebSysEvent) : L3DealerwebSysEventPacked :=
  (u.typ, u.venue, u.timestampNanoseconds, u.eventCode, u.eventReason, u.orderBookID)

def L3DealerwebSysEvent.fromPacked : L3DealerwebSysEventPacked → L3DealerwebSysEvent
  | (typ, venue, timestampNanoseconds, eventCode, eventReason, orderBookID) =>
      { typ, venue, timestampNanoseconds, eventCode, eventReason, orderBookID }

/-- `l3_dealerweb_orderbookstate_t`. -/
structure L3DealerwebOrderbookstate where
  (typ venue : UInt8)
  timestampNanoseconds : UInt64
  orderBookID : UInt32
  securityEventCode : UInt8

abbrev L3DealerwebOrderbookstatePacked := UInt8 × UInt8 × UInt64 × UInt32 × UInt8

def L3DealerwebOrderbookstate.toPacked (u : L3DealerwebOrderbookstate) :
    L3DealerwebOrderbookstatePacked :=
  (u.typ, u.venue, u.timestampNanoseconds, u.orderBookID, u.securityEventCode)

def L3DealerwebOrderbookstate.fromPacked :
    L3DealerwebOrderbookstatePacked → L3DealerwebOrderbookstate
  | (typ, venue, timestampNanoseconds, orderBookID, securityEventCode) =>
      { typ, venue, timestampNanoseconds, orderBookID, securityEventCode }

/-- `l3_dealerweb_information_t`. -/
structure L3DealerwebInformation where
  (typ venue : UInt8)
  timestampNanoseconds : UInt64
  orderBookID : UInt32
  primaryInformation : UInt64
  secondaryInformation : UInt32
  informationType : UInt16

abbrev L3DealerwebInformationPacked := UInt8 × UInt8 × UInt64 × UInt32 × UInt64 × UInt32 × UInt16

def L3DealerwebInformation.toPacked (u : L3DealerwebInformation) : L3DealerwebInformationPacked :=
  (u.typ, u.venue, u.timestampNanoseconds, u.orderBookID, u.primaryInformation,
    u.secondaryInformation, u.informationType)

def L3DealerwebInformation.fromPacked : L3DealerwebInformationPacked → L3DealerwebInformation
  | (typ, venue, timestampNanoseconds, orderBookID, primaryInformation, secondaryInformation,
      informationType) =>
      { typ, venue, timestampNanoseconds, orderBookID, primaryInformation, secondaryInformation,
        informationType }

/-- `l3_dealerweb_brokentrade_t`. -/
structure L3DealerwebBrokentrade where
  (typ venue : UInt8)
  timestampNanoseconds : UInt64
  (orderBookID transactionID executedQuantity : UInt32)
  matchID : Vector UInt8 14
  tradePrice : Int64

abbrev L3DealerwebBrokentradePacked := UInt8 × UInt8 × UInt64 × UInt32 × UInt32 × UInt32 ×
  Vector UInt8 14 × Int64

def L3DealerwebBrokentrade.toPacked (u : L3DealerwebBrokentrade) : L3DealerwebBrokentradePacked :=
  (u.typ, u.venue, u.timestampNanoseconds, u.orderBookID, u.transactionID, u.executedQuantity,
    u.matchID, u.tradePrice)

def L3DealerwebBrokentrade.fromPacked : L3DealerwebBrokentradePacked → L3DealerwebBrokentrade
  | (typ, venue, timestampNanoseconds, orderBookID, transactionID, executedQuantity, matchID,
      tradePrice) =>
      { typ, venue, timestampNanoseconds, orderBookID, transactionID, executedQuantity, matchID,
        tradePrice }

end KasparHft.Bfile
