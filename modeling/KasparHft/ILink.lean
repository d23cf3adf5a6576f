import KasparHft.AssocMap
import KasparHft.Som
import Mathlib.Data.List.MinMax

/-!
# The iLink handler

`ilink/act/ILinkHandler.hpp`: orders go to the exchange under a client order id, execution
reports come back and become acks, fills, cancel acks and rejects to the order's sender.
`check_seq` watches the sequence numbers of what comes in and asks for what is missing.

Sequence numbers are `uint32_t`, kept as numbers below `2 ^ 32` with the wrap written out.
The session itself (negotiation, establishment, keep alive), the audit and the trade records
are left out.  `none` is a failed assertion or a dereference past the end.
-/

namespace KasparHft.ILink

open AssocMap

/-! ### Sequence numbers -/

def add32 (a b : ℕ) : ℕ := (a + b) % 2 ^ 32

def sub32 (a b : ℕ) : ℕ := (a + 2 ^ 32 - b) % 2 ^ 32

/-- `retransmission_request_t`, and the request as it is sent. -/
structure Request where
  fromSeqNo : ℕ
  count : ℕ
deriving DecidableEq, Repr

/-- The members that `check_seq` uses. -/
structure Seq where
  lastseq : ℕ := 0
  seenSeqnums : List ℕ := []
  requestsSent : List Request := []
  requestsWaiting : List Request := []
deriving DecidableEq, Repr

/-- `last_seq_num_requested`: one past the last number requested. -/
def Seq.lastSeqNumRequested (s : Seq) : ℕ :=
  match s.requestsSent.getLast? with
  | none => 0
  | some r => add32 r.fromSeqNo r.count

/-- The request that waits is sent when the number before it arrives. -/
def Seq.sendWaiting (s : Seq) (sn : ℕ) : Seq × List Request :=
  match s.requestsWaiting with
  | [] => (s, [])
  | req :: rest =>
      if sn = sub32 req.fromSeqNo 1 then
        ({ s with requestsSent := s.requestsSent ++ [req], requestsWaiting := rest }, [req])
      else (s, [])

/-- The loop that splits a gap into requests of at most 2500 messages. -/
def splitGap : ℕ → ℕ → ℕ → List Request
  | 0, _, _ => []
  | fuel + 1, fromSeqNo, total =>
      if total = 0 then []
      else
        let thisCount := min 2500 total
        ⟨fromSeqNo, thisCount⟩ :: splitGap fuel (add32 fromSeqNo thisCount) (total - thisCount)

/-- The largest number seen below `sn`. -/
def Seq.seenBelow (s : Seq) (sn : ℕ) : Option ℕ := (s.seenSeqnums.filter (· < sn)).max?

/-- The test for a new number: a gap, unless the number before was seen. -/
def Seq.requestGap (s : Seq) (sn : ℕ) (busmessage : Bool) : Option (Seq × List Request) :=
  let hasprev := s.seenSeqnums.contains (sub32 sn 1)
  if hasprev || !busmessage then some (s, [])
  else
    let lastseqAdj := max s.lastseq s.lastSeqNumRequested
    if sn ≤ add32 lastseqAdj 1 then
      -- a gap in a retransmission; this request is not kept
      match s.seenBelow sn with
      | none => none
      | some lastseq =>
          let fromSeqNo := add32 lastseq 1
          let count := sub32 sn fromSeqNo
          -- `msg_count` is a `uint16_t`
          if count = 0 then none else some (s, [⟨fromSeqNo, count % 2 ^ 16⟩])
    else
      let count := sub32 (sub32 sn lastseqAdj) 1
      if count = 0 then none
      else
        match splitGap count (add32 lastseqAdj 1) count with
        | [] => some (s, [])
        | first :: rest =>
            some ({ s with
              requestsSent := s.requestsSent ++ [first]
              requestsWaiting := s.requestsWaiting ++ rest }, [first])

/-- `check_seq`. -/
def Seq.checkSeq (s : Seq) (sn : ℕ) (busmessage : Bool) : Option (Seq × List Request) :=
  let (s, sent) := if busmessage then s.sendWaiting sn else (s, [])
  if add32 s.lastseq 1 < sn then
    (s.requestGap sn busmessage).map fun r =>
      ({ r.1 with seenSeqnums := sn :: r.1.seenSeqnums }, sent ++ r.2)
  else some ({ s with lastseq := sn, seenSeqnums := sn :: s.seenSeqnums }, sent)

/-- What concerns the sequence numbers of a session. -/
inductive Inbound where
  | business (sn : ℕ)
  | partyDetailsAck (sn : ℕ)
  | sequence (nextSeqNo : ℕ)
deriving DecidableEq, Repr

/-- `partyDetailsAck_handler` puts `lastseq` to its own number first. -/
def Seq.inbound (s : Seq) : Inbound → Option (Seq × List Request)
  | .business sn => s.checkSeq sn true
  | .partyDetailsAck sn => Seq.checkSeq { s with lastseq := sn } sn true
  | .sequence nextSeqNo => s.checkSeq (sub32 nextSeqNo 1) false

/-! ### Messages -/

/-- The template of an execution report. -/
inductive Template where
  | reject523
  | new522
  | modify531
  | cancel534
  | status532
  | tradeOutright525
  | tradeSpread526
  | tradeAddendumOutright548
  | elimination524
  | other
deriving DecidableEq, Repr

/-- `exec_report_param_t`, of which the handler reads this. -/
structure ExecReport where
  templateId : Template
  seqNum : ℕ
  clOrdID : String
  orderID : ℕ
  lastPxMantissa : ℕ
  lastPxExponent : ℤ
  transactTime : ℕ
  lastQty : ℕ
  leavesQty : ℕ
  cumQty : ℕ
deriving DecidableEq

/-- `MAXNUMREJECTS`. -/
def maxNumRejects : ℕ := 250

/-- `Reject::THROTTLE`, `Reject::EXCHLIMIT`. -/
def rejectThrottle : ℤ := 2

def rejectExchlimit : ℤ := 3

/-- The reasons of a `CancReject` that the handler gives. -/
def cancRejectNotacked : ℤ := 4

def cancRejectFromexchange : ℤ := 7

def cancRejectFromexchangeBusinessreject : ℤ := 8

def cancRejectThrottle : ℤ := 9

/-- What the handler sends: to the sender of an order, and to the exchange. -/
inductive Sent where
  | ack (dest : ℕ) (coid : Int32) (xordid : ℕ)
  | reject (dest : ℕ) (coid : Int32) (reason : ℤ)
  | cancReject (dest : ℕ) (coid : Int32) (reason : ℤ)
  | cancAck (dest : ℕ) (coid : Int32)
  | fill (dest : ℕ) (f : Som.Fill)
  | newOrderSingle (cloid : String) (px sz : ℤ) (side : Side)
  | orderCancel (cloid : String) (xoid : ℕ) (side : Side)
  | retransmissionRequest (r : Request)
  | sequence
  | partyDetailsListRequest (reqid : ℕ)
deriving DecidableEq

/-- What is fixed for a run: the flags of the handler, the reference data, and the price that
    `ref::Price` makes of a mantissa and an exponent. -/
structure Cfg where
  cancelDoNotSendXOrderid : Bool := true
  cancelRequiredXOrderid : Bool := false
  roundingDigits : ℕ → ℕ
  toPx : ℕ → ℕ → ℤ → ℤ

/-- The members of an `ILinkHandler`. -/
structure State where
  seq : Seq := {}
  cloidToCoid : Map String Int32 := ∅
  coidToCloid : Map Int32 String := ∅
  cloidToXoid : Map String ℕ := ∅
  coidToOrder : Map Int32 Som.Order := ∅
  nosSeqnumToCoid : Map ℕ Int32 := ∅
  cancSeqnumToCoid : Map ℕ Int32 := ∅
  busRejectCnt : ℕ := 0
  execRejectCnt : ℕ := 0

/-- What the handler receives.  Where it sends to the exchange, the number the sender of the
    connection gives comes along; `hms` is the time of day. -/
inductive Event where
  | bind (lastseqFromCme : ℕ)
  | order (m : Som.Order) (cloidStart : String) (hms seqnum : ℕ)
  | cancel (id : Int32) (sender seqnum : ℕ)
  | executionReport (param : ExecReport)
  | cancelReject (isReplace : Bool) (clOrdID : String) (seqNum : ℕ)
  | businessReject (refID reason seqNum : ℕ)
  | partyDetailsAck (seqNum reqid : ℕ)
  | notApplied (nextSeqNo : ℕ)
  | sequence (nextSeqNo : ℕ) (lapsed : Bool)

/-! ### The handlers -/

/-- One handler after another. -/
def andThen (r : Option (State × List Sent)) (f : State → Option (State × List Sent)) :
    Option (State × List Sent) :=
  r.bind fun r => (f r.1).map fun r' => (r'.1, r.2 ++ r'.2)

/-- `check_seq` in the handler. -/
def State.inbound (i : Inbound) (s : State) : Option (State × List Sent) :=
  (s.seq.inbound i).map fun r => ({ s with seq := r.1 }, r.2.map .retransmissionRequest)

/-- `gen_cloid`: the last ten characters of the order id after the time. -/
def genCloid (cloidStart : String) (hms : ℕ) (oid : Int32) : Option String :=
  if cloidStart = "STR" ∨ cloidStart = "RFQ" ∨ cloidStart = "SMA" then
    let oids := toString oid.toInt
    some (cloidStart ++ toString hms ++ "X" ++ (oids.drop (oids.length - 10)))
  else none

/-- `order_handler`; a cancel replace is not implemented. -/
def State.orderHandler (cfg : Cfg) (s : State) (m : Som.Order) (cloidStart : String)
    (hms seqnum : ℕ) : Option (State × List Sent) :=
  if m.stillToBeFilled ≤ 0 ∨ m.sz ≤ 0 then none
  else
    (genCloid cloidStart hms m.oid).bind fun cloid =>
      if m.oidToCancel ≠ -1 ∨ cfg.roundingDigits m.sym = 0 then none
      else
        some ({ s with
          nosSeqnumToCoid := s.nosSeqnumToCoid.insert seqnum m.oid
          cloidToCoid := s.cloidToCoid.insert cloid m.oid
          coidToOrder := s.coidToOrder.insert m.oid m
          coidToCloid := s.coidToCloid.insert m.oid cloid },
          [.newOrderSingle cloid m.px (Som.toInt (m.sz + 1 / 10000)) m.side])

/-- `cancel_handler`. -/
def State.cancelHandler (cfg : Cfg) (s : State) (id : Int32) (sender seqnum : ℕ) :
    Option (State × List Sent) :=
  (s.coidToOrder.lookup id).bind fun order =>
    (s.coidToCloid.lookup id).map fun cloid =>
      let known := s.cloidToXoid.lookup cloid
      if cfg.cancelDoNotSendXOrderid = false ∧ known = none ∧ cfg.cancelRequiredXOrderid then
        (s, [.cancReject sender id cancRejectNotacked])
      else
        let xoid := if cfg.cancelDoNotSendXOrderid then 0 else known.getD 0
        ({ s with cancSeqnumToCoid := s.cancSeqnumToCoid.insert seqnum id },
          [.orderCancel cloid xoid order.side])

/-- `int` from `uint32_t`. -/
def toInt32 (n : ℕ) : ℤ := if n < 2 ^ 31 then n else n - 2 ^ 32

/-- A trade: the amount filled is what was still to be filled less `LeavesQty`, in unsigned
    arithmetic, and what is still to be filled becomes `LeavesQty` in any case. -/
def State.onTrade (cfg : Cfg) (s : State) (order : Som.Order) (coid : Int32) (param : ExecReport) :
    State × List Sent :=
  let overfill := order.stillToBeFilled < toInt32 param.leavesQty
  let amtFilled := ((order.stillToBeFilled - param.leavesQty) % 2 ^ 32).toNat
  let order' := { order with stillToBeFilled := toInt32 param.leavesQty }
  let s := { s with coidToOrder := s.coidToOrder.insert coid order' }
  if overfill ∨ amtFilled = 0 then (s, [])
  else
    (s, [.fill order.sender
      { id := order.oid.toUInt32, venue := order.venue, sym := order.sym
        px := cfg.toPx order.sym param.lastPxMantissa param.lastPxExponent, side := order.side
        sz := amtFilled, stillToBeFilled := order'.stillToBeFilled, owner := order.owner
        tim := param.transactTime }])

/-- The branches of `executionReport_handler` on a report of an order of ours. -/
def State.onReport (cfg : Cfg) (s : State) (order : Som.Order) (coid : Int32) (param : ExecReport) :
    Option (State × List Sent) :=
  match param.templateId with
  | .reject523 =>
      if maxNumRejects < s.execRejectCnt then none
      else
        some ({ s with execRejectCnt := s.execRejectCnt + 1 }, [.reject order.sender coid 0])
  | .new522 =>
      some ({ s with cloidToXoid := s.cloidToXoid.insert param.clOrdID param.orderID },
        [.ack order.sender coid param.orderID])
  | .modify531 =>
      some ({ s with cloidToXoid := s.cloidToXoid.insert param.clOrdID param.orderID },
        [.cancAck order.sender order.oidToCancel, .ack order.sender coid param.orderID])
  | .cancel534 | .elimination524 => some (s, [.cancAck order.sender coid])
  | .tradeOutright525 => some (s.onTrade cfg order coid param)
  | .tradeAddendumOutright548 => some (s, [])
  | .status532 | .tradeSpread526 | .other => none

/-- `executionReport_handler`. -/
def State.executionReportHandler (cfg : Cfg) (s : State) (param : ExecReport) :
    Option (State × List Sent) :=
  match s.cloidToCoid.lookup param.clOrdID with
  | none => s.inbound (.business param.seqNum)
  | some coid =>
      (s.coidToOrder.lookup coid).bind fun order =>
        andThen (s.onReport cfg order coid param) (State.inbound (.business param.seqNum))

/-- `cancelReject_handler`. -/
def State.cancelRejectHandler (s : State) (isReplace : Bool) (clOrdID : String) (seqNum : ℕ) :
    Option (State × List Sent) :=
  (s.cloidToCoid.lookup clOrdID).bind fun coid =>
    (s.coidToOrder.lookup coid).bind fun order =>
      let rejected : List Sent := if isReplace then [.reject order.sender coid 0] else []
      andThen (some (s, rejected ++ [.cancReject order.sender coid cancRejectFromexchange]))
        (State.inbound (.business seqNum))

/-- `businessReject_handler`. -/
def State.businessRejectHandler (s : State) (refID reason seqNum : ℕ) :
    Option (State × List Sent) :=
  andThen (s.inbound (.business seqNum)) fun s =>
    if maxNumRejects < s.busRejectCnt then none
    else
      let s := { s with busRejectCnt := s.busRejectCnt + 1 }
      let ofOrder : Option (List Sent) :=
        match s.nosSeqnumToCoid.lookup refID with
        | none => some []
        | some coid =>
            (s.coidToOrder.lookup coid).map fun order =>
              [.reject order.sender coid (if reason = 107 then rejectExchlimit else rejectThrottle)]
      let ofCancel : List Sent :=
        match s.cancSeqnumToCoid.lookup refID with
        | none => []
        | some coid =>
            match s.coidToOrder.lookup coid with
            | none => []
            | some order =>
                [.cancReject order.sender coid
                  (if reason = 8 then cancRejectThrottle else cancRejectFromexchangeBusinessreject)]
      ofOrder.map fun rejected => (s, rejected ++ ofCancel)

/-- One message. -/
def handle (cfg : Cfg) (s : State) : Event → Option (State × List Sent)
  | .bind lastseqFromCme => some ({ s with seq := { s.seq with lastseq := lastseqFromCme } }, [])
  | .order m cloidStart hms seqnum => s.orderHandler cfg m cloidStart hms seqnum
  | .cancel id sender seqnum => s.cancelHandler cfg id sender seqnum
  | .executionReport param => s.executionReportHandler cfg param
  | .cancelReject isReplace clOrdID seqNum => s.cancelRejectHandler isReplace clOrdID seqNum
  | .businessReject refID reason seqNum => s.businessRejectHandler refID reason seqNum
  | .partyDetailsAck seqNum reqid =>
      andThen (s.inbound (.partyDetailsAck seqNum)) fun s =>
        some (s, [.partyDetailsListRequest reqid])
  | .notApplied nextSeqNo =>
      andThen (some (s, [.sequence])) (State.inbound (.business nextSeqNo))
  | .sequence nextSeqNo lapsed =>
      andThen (some (s, if lapsed then [.sequence] else []))
        (State.inbound (.sequence nextSeqNo))

end KasparHft.ILink
