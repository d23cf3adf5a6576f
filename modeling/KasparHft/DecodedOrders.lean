import KasparHft.MsgDecoder
import KasparHft.TradeRouting

/-!
# Decoded orders in the books

The orders of a book message that is decoded, given to the handler: each reaches the book of the
instrument of the entry it names, and no other.
-/

namespace KasparHft.MsgDecoder

open HandlerIf (Cfg State Sent Record handle)
open Machine

variable {Px : Type}

/-- The callbacks of which the handler makes records; entries by price are filtered, and
    statistics are not used. -/
def Callback.handled : Callback → Option HandlerIf.Callback
  | .mdIncrementalRefreshBookOrder recvTime msgSeqNum transactTime sendingTime securityID
      pxMantissa pxExponent side displayQty orderID orderUpdateAction priority lastQuote
      endOfEvent recovery =>
      some (.mdIncrementalRefreshBook ⟨recvTime.toNat, msgSeqNum.toNat, transactTime.toNat,
        sendingTime.toNat, securityID.toInt, pxMantissa.toInt, pxExponent.toInt,
        Char.ofNat side.toNat, displayQty.toInt, orderID.toNat, orderUpdateAction.toNat,
        priority.toNat, lastQuote, endOfEvent, recovery⟩)
  | .mdIncrementalRefreshTradeSummaryOrder recvTime msgSeqNum transactTime sendingTime lastQty
      orderID lastTrade endofEvent =>
      some (.mdIncrementalRefreshTradeSummary ⟨recvTime.toNat, msgSeqNum.toNat,
        transactTime.toNat, sendingTime.toNat, lastQty.toInt, orderID.toNat, lastTrade,
        endofEvent⟩)
  | .mdIncrementalRefreshBook .. | .mdIncrementalRefreshTradeSummary ..
  | .mdIncrementalRefreshSessionStatistics .. | .mdIncrementalRefreshDailyStatistics .. => none

/-- An order goes to the book of its instrument. -/
theorem sent_of_order {cfg : Cfg Px} {s : State} {e : HandlerIf.BookEntry} {b : ℕ}
    {r : HandlerIf.MboRecord Px}
    (h : .book b (.mbo r) ∈ (s.mdIncrementalRefreshBook cfg e).2) :
    r.orderID = e.orderID ∧ r.securityID = e.securityID ∧ cfg.bookOf e.securityID = some b := by
  unfold State.mdIncrementalRefreshBook at h
  split at h
  next => cases h
  next =>
    have hforward : (b, .mbo r) ∈ HandlerIf.forwards _ := List.mem_filterMap.mpr ⟨_, h, rfl⟩
    rw [HandlerIf.forwards_emit] at hforward
    obtain ⟨b', hbook, hpair⟩ := List.mem_map.mp hforward
    obtain ⟨rfl, hrecord⟩ := Prod.mk.inj hpair
    obtain rfl := Record.mbo.inj hrecord
    exact ⟨rfl, rfl, Option.mem_toList.mp hbook⟩

/-- Each order that a book is sent is of an entry of the past. -/
theorem sent_of_run {cfg : Cfg Px} {s t : State} {cs : List HandlerIf.Callback}
    {out : List (Sent Px)} (hcs : ∀ c ∈ cs, ∃ e, c = .mdIncrementalRefreshBook e)
    (hrun : run (fun s c => some (handle cfg s c)) s cs = some (t, out)) {b : ℕ}
    {r : HandlerIf.MboRecord Px} (hsent : .book b (.mbo r) ∈ out) :
    ∃ e, .mdIncrementalRefreshBook e ∈ cs ∧ r.orderID = e.orderID ∧
      r.securityID = e.securityID ∧ cfg.bookOf e.securityID = some b := by
  induction cs generalizing s out with
  | nil =>
      obtain ⟨-, rfl⟩ := Prod.mk.inj (Option.some.inj hrun)
      cases hsent
  | cons c cs ih =>
      obtain ⟨s', o, os, hstep, hrest, rfl⟩ := run_cons.mp hrun
      obtain ⟨⟨e, rfl⟩, hlater⟩ := List.forall_mem_cons.mp hcs
      rcases List.mem_append.mp hsent with hsent | hsent
      · have hout : o = (s.mdIncrementalRefreshBook cfg e).2 :=
          (congrArg Prod.snd (Option.some.inj hstep)).symm
        rw [hout] at hsent
        exact ⟨e, List.mem_cons_self, sent_of_order hsent⟩
      · obtain ⟨e', hmem, hrecord⟩ := ih hlater hrest hsent
        exact ⟨e', List.mem_cons_of_mem _ hmem, hrecord⟩

/-- What the handler is given of a book message: an entry for each order that names one. -/
theorem handled_wanted {ts : UInt64} {msgSeqNum : UInt32} {sendingTime : UInt64}
    {incr : MDIncrementalRefreshBook46} {c : HandlerIf.Callback}
    (h : c ∈ ((Message.book46 incr).wanted ts msgSeqNum sendingTime).filterMap
      Callback.handled) :
    ∃ o ∈ incr.noOrderIDEntries, ∃ e, incr.named o = some e ∧
      ∃ entry, c = .mdIncrementalRefreshBook entry ∧ entry.orderID = o.orderID.toNat ∧
        entry.securityID = e.securityID.toInt := by
  obtain ⟨cb, hcb, hhandled⟩ := List.mem_filterMap.mp h
  rcases List.mem_append.mp hcb with hentry | horder
  · obtain ⟨e, -, rfl⟩ := List.mem_map.mp hentry
    cases hhandled
  · obtain ⟨o, ho, hjoined⟩ := List.mem_filterMap.mp horder
    obtain ⟨e, hnamed, rfl⟩ := Option.map_eq_some_iff.mp hjoined
    exact ⟨o, ho, e, hnamed, _, (Option.some.inj hhandled).symm, rfl, rfl⟩

/-- **No order reaches the book of another instrument** than that of the entry it names. -/
theorem orders_in_own_book (outside : ℤ → RepG1) (ts : UInt64) (msgSeqNum : UInt32)
    (sendingTime : UInt64) {incr : MDIncrementalRefreshBook46}
    (h : (Message.book46 incr).Decodable) {cfg : Cfg Px} {s t : State} {out : List (Sent Px)}
    (hrun : run (fun s c => some (handle cfg s c)) s
      ((decode ts msgSeqNum sendingTime outside (.book46 incr)).callbacks.filterMap
        Callback.handled) = some (t, out))
    {b : ℕ} {r : HandlerIf.MboRecord Px} (hsent : .book b (.mbo r) ∈ out) :
    ∃ o ∈ incr.noOrderIDEntries, ∃ e, incr.named o = some e ∧ r.orderID = o.orderID.toNat ∧
      r.securityID = e.securityID.toInt ∧ cfg.bookOf e.securityID.toInt = some b := by
  have hwanted := decodeBook46_wanted ts msgSeqNum sendingTime outside h
  rw [decode, hwanted] at hrun
  obtain ⟨entry, hentry, horder, hsecurity, hbook⟩ := sent_of_run (fun c hc => by
    obtain ⟨-, -, -, -, entry, hc, -⟩ := handled_wanted hc
    exact ⟨entry, hc⟩) hrun hsent
  obtain ⟨o, ho, e, hnamed, entry', heq, horder', hsecurity'⟩ := handled_wanted hentry
  obtain rfl := HandlerIf.Callback.mdIncrementalRefreshBook.inj heq
  refine ⟨o, ho, e, hnamed, horder.trans horder', hsecurity.trans hsecurity', ?_⟩
  rwa [← hsecurity']

end KasparHft.MsgDecoder
