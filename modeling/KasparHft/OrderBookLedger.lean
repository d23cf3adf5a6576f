import KasparHft.OrderBookPath
import KasparHft.OrderBookNotes
import KasparHft.Outbox

/-!
# The ledger of an order book

What the book has told, with the number of clears before its prices were computed: a burst is
told one record late, with the point that was kept, and may then wait in `pub_q`.

`Logs` follows a run message by message, and a message payload by payload, and keeps the
ledger beside the state.
-/

namespace KasparHft.OB

open AssocMap FillSlate Outbox

variable {Px : Type} {cfg : FeedCfg} {ops : PriceOps Px} {s s' : State Px}

/-! ### Messages -/

/-- Messages with prices of the book. -/
def Msg.priced : Msg → Bool
  | .endOfBurst .. | .endOfBurst2 .. | .note (.bbboChg ..) => true
  | _ => false

/-- Messages that an actor is sent as a subscriber. -/
def Msg.subscribed : Msg → Bool
  | .endOfBurst .. | .endOfBurst2 .. | .tradeNotify .. | .gapDetected | .note (.bbboChg ..)
  | .note .clear => true
  | .note (.fill ..) | .note (.cancAck ..) | .note (.cancReject ..) | .unStash _ => false

theorem Msg.subscribed_of_priced {m : Msg} (h : m.priced = true) : m.subscribed = true := by
  cases m with
  | note n => cases n <;> first | rfl | cases h
  | _ => first | rfl | cases h

/-- A message is sent at once when there is no feed delay or no time. -/
def atOnce (cfg : FeedCfg) (m : Sent × ℕ) : Bool := cfg.feedDelay = 0 || m.2 = 0

/-- What `handle_eoburst` publishes, with the times. -/
def State.burstMsgs (cfg : FeedCfg) (s : State Px) (payload : Pl) : List (Sent × ℕ) :=
  match s.lastGoodPayload with
  | none => []
  | some (last, pt) =>
      let pt' := if pt.baddata then pt else shiftZero pt
      let burst : List (Sent × ℕ) :=
        if pt.baddata then []
        else s.hiprioDatasubs.map fun a => (⟨a, .endOfBurst last pt'⟩, last.txtimEpoch)
      let unStash : List (Sent × ℕ) :=
        match cfg.som with
        | some a =>
            if 0 < payload.sendtimEpoch then [(⟨a, .unStash (payload.sendtimEpoch + 40000)⟩, 0)]
            else []
        | none => []
      let burst2 : List (Sent × ℕ) := s.lowprioDatasubs.map fun a =>
        (⟨a, .endOfBurst2 last.txtimEpoch (pt'.bidPx.headD 0) (pt'.askPx.headD 0)
          (pt'.bidSz.headD 0) (pt'.askSz.headD 0) last.mev last.action last.side⟩,
          last.txtimEpoch)
      burst ++ unStash ++ burst2

theorem handleEoburst_eq (s : State Px) (pl : Pl) :
    s.handleEoburst cfg pl =
      State.publish cfg { s with lastGoodPayload := none } (s.burstMsgs cfg pl) := by
  unfold State.handleEoburst State.burstMsgs
  rcases hlast : s.lastGoodPayload with _ | ⟨last, pt⟩
  · simp only [State.publish, List.filter_nil, List.map_nil, List.append_nil]
    rw [← hlast]
  · rfl

/-- Who is told of a trade, with the point. -/
def State.tradeMsgs (cfg : FeedCfg) (s : State Px) (pl : Pl) : List (Sent × ℕ) :=
  (s.hiprioDatasubs ++ s.bbbosubs.filter fun a => a ∉ s.hiprioDatasubs).map fun a =>
    (⟨a, .tradeNotify pl (s.book.calcBa cfg)⟩, pl.txtimEpoch)

/-- Who is told of a gap. -/
def State.gapMsgs (s : State Px) : List Sent :=
  (s.hiprioDatasubs ++ s.lowprioDatasubs).map fun a => ⟨a, .gapDetected⟩

/-! ### The ledger -/

/-- What was told, and the clears before the point that is kept. -/
structure Ledger where
  box : Box Sent := {}
  kept : ℕ := 0

/-- `publish_delayed`, of prices of mark `k`. -/
def Ledger.publish (cfg : FeedCfg) (l : Ledger) (k : ℕ) (ms : List (Sent × ℕ)) : Ledger :=
  { l with box := l.box.say k (ms.map fun m => (m.1, atOnce cfg m)) }

/-- `drain_pub_q`. -/
def Ledger.drain (s : State Px) (now : ℕ) (l : Ledger) : Ledger :=
  { l with box := l.box.release (s.pubQ.takeWhile fun m => m.1 ≤ now).length }

/-- `clear`: what is computed from here on has a new mark. -/
def Ledger.clear (cfg : FeedCfg) (s : State Px) (l : Ledger) : Ledger :=
  match s.book.clear cfg.toCfg with
  | none => l
  | some (_, notes) =>
      Ledger.publish cfg { l with box := l.box.reset } (l.box.resets + 1) (notes.flatMap s.address)

/-- `process_add_or_mod`: what the book tells is of now, what the burst tells is of the point
    kept. -/
def Ledger.addOrMod (cfg : FeedCfg) (s : State Px) (pl : Pl) (sender : Option ℕ) (l : Ledger) :
    Ledger :=
  if pl.mev = .add ∨ pl.mev = .mod then
    match step cfg.toCfg s.book (pl.call s.currtim sender) with
    | none => l
    | some (_, notes) =>
        (l.publish cfg l.box.resets (notes.flatMap s.address)).publish cfg l.kept
          (s.burstMsgs cfg pl)
  else if pl.mev = .eoburst then l.publish cfg l.kept (s.burstMsgs cfg pl)
  else if pl.mev = .clear then l.clear cfg s
  else if pl.mev = .gap then
    { l with box := l.box.say l.box.resets (s.gapMsgs.map fun m => (m, true)) }
  else l

/-- The end of `process_market_data`: a point is kept, or a trade told. -/
def Ledger.keepPoint (cfg : FeedCfg) (s : State Px) (pl : Pl) (l : Ledger) : Ledger :=
  if pl.isSim ∨ pl.recovery ∨ pl.mev = .eoburst ∨ pl.mev = .test ∨ pl.mev = .clear ∨
      pl.mev = .gap then l
  else if pl.action ≠ .exec then { l with kept := l.box.resets }
  else l.publish cfg l.box.resets (s.tradeMsgs cfg pl)

/-- `process_market_data`. -/
def Ledger.marketData (cfg : FeedCfg) (s : State Px) (pl : Pl) (sender : Option ℕ)
    (l : Ledger) : Ledger :=
  let l := if pl.txtimEpoch ≠ 0 ∧ pl.isSim = false then l.drain s pl.txtimEpoch else l
  match (s.drained pl).1.checkCross cfg pl with
  | none => l
  | some s₁ =>
      let l := l.addOrMod cfg s₁ pl sender
      match s₁.processAddOrMod cfg pl sender with
      | none => l
      | some (s₂, _) => l.keepPoint cfg s₂ pl

/-- Nothing happens to the orders and the best prices, to the point kept and to what waits. -/
structure Idle (s s' : State Px) : Prop where
  bidqs : s'.book.bidqs = s.book.bidqs
  askqs : s'.book.askqs = s.book.askqs
  bestBid : s'.book.bestBid = s.book.bestBid
  bestAsk : s'.book.bestAsk = s.book.bestAsk
  lastGoodPayload : s'.lastGoodPayload = s.lastGoodPayload
  pubQ : s'.pubQ = s.pubQ

/-! ### Messages and runs with the ledger -/

/-- Payloads of records and of our own orders. -/
inductive Processes (cfg : FeedCfg) : State Px → Ledger → List Sent → State Px → Ledger → Prop
  | idle {s s' : State Px} {l : Ledger} (h : Idle s s') : Processes cfg s l [] s' l
  | payload {s s' : State Px} {l : Ledger} {o : List Sent} {pl : Pl} {sender : Option ℕ}
      (hmev : pl.mev = .add ∨ pl.mev = .mod)
      (h : s.processMarketData cfg pl sender = some (s', o)) :
      Processes cfg s l o s' (l.marketData cfg s pl sender)
  | trans {s s₁ s' : State Px} {l l₁ l' : Ledger} {o o' : List Sent}
      (h : Processes cfg s l o s₁ l₁) (h' : Processes cfg s₁ l₁ o' s' l') :
      Processes cfg s l (o ++ o') s' l'

/-- The control records and what their payload is. -/
def Event.control : Event Px → Option Md
  | .chr => some .clear
  | .gap => some .gap
  | .eob => some .eoburst
  | _ => none

/-- The payload of a control record. -/
def State.controlPl (s : State Px) (mev : Md) : Pl :=
  { side := .buy, exOrderId := 0, orderRef := ⟨0, 0⟩, mev := mev, action := .uni, sz := -1
    dispSz := 0, px := 0, tim := 0, sendTim := 0, mkt := xUNI, eoe := false, recovery := false
    txtimEpoch := s.txtimEpoch, sendtimEpoch := s.sendtimEpoch }

/-- The record is the first of a recovery, so the book is cleared before it is applied. -/
def StartsRecovery (cfg : FeedCfg) (ops : PriceOps Px) (s : State Px) : Event Px → Prop
  | .mbo m =>
      Reaches cfg ops m ∧ (s.gate m).2 = true ∧ m.recovery = true ∧ s.isInRecovery = false
  | _ => False

/-- One message with the ledger. -/
inductive Noted (cfg : FeedCfg) (ops : PriceOps Px) (s : State Px) (l : Ledger) :
    Event Px → List Sent → State Px → Ledger → Prop
  | control {e : Event Px} {mev : Md} {s' : State Px} {o : List Sent} (he : e.control = some mev)
      (h : s.processMarketData cfg (s.controlPl mev) none = some (s', o)) :
      Noted cfg ops s l e o s' (l.marketData cfg s (s.controlPl mev) none)
  | recovery {e : Event Px} {s₀ s₁ s' : State Px} {l' : Ledger} {o o' : List Sent}
      (he : StartsRecovery cfg ops s e) (hidle : Idle s s₀) (hclear : s₀.clear cfg = some (s₁, o))
      (h : Processes cfg s₁ (l.clear cfg s₀) o' s' l') : Noted cfg ops s l e (o ++ o') s' l'
  | orders {e : Event Px} {s' : State Px} {l' : Ledger} {o : List Sent} (he : e.control = none)
      (hnot : ¬ StartsRecovery cfg ops s e) (h : Processes cfg s l o s' l') :
      Noted cfg ops s l e o s' l'

/-- A run with its ledger. -/
inductive Logs (cfg : FeedCfg) (ops : PriceOps Px) :
    List (Event Px) → List Sent → State Px → Ledger → Prop
  | new : Logs cfg ops [] [] (State.new Px cfg) {}
  | step {es : List (Event Px)} {e : Event Px} {out o : List Sent} {s s' : State Px}
      {l l' : Ledger} (h : Logs cfg ops es out s l) (hstep : handle cfg ops s e = some (s', o))
      (hnoted : Noted cfg ops s l e o s' l') : Logs cfg ops (es ++ [e]) (out ++ o) s' l'

end KasparHft.OB
