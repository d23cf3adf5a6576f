import KasparHft.Light22
import KasparHft.Som

/-!
# The slippage probe

`sim::SlippageProbe` runs the lights of the simulator as a market maker and measures what the
work cost.  Each side has a position book of its own.  When a window opens the probe gives
each side a parent to work by telling its book that it holds the opposite position; the lights
bring the book back to flat, and the window closes at the first tick past its minimum at which
both sides have filled what they were given.

A step handles one message; `none` is a failed `ASSERT`.  `double` is exact here, `int` is
unbounded, and sums of `uint64_t` stamps wrap.  A fill reaches the light that owns the order,
whose handler moves the book of its side, and the probe; both handlers are one step.
-/

namespace KasparHft.Probe

open Light22 (addPosition)
open Som (toInt)

/-- `TimerIds::PROBE_TICK`. -/
def probeTick : ℕ := 700

/-- A sum of `uint64_t`. -/
def addNs (a b : ℕ) : ℕ := (a + b) % 2 ^ 64

/-- A difference of `uint64_t`. -/
def subNs (a b : ℕ) : ℕ := (a + (2 ^ 64 - b)) % 2 ^ 64

/-! ### State -/

/-- `Config`, as far as the handlers read it. -/
structure Config where
  sym : ℕ := 0
  parentSz : ℤ := 0
  sessionStart : ℕ := 0
  sessionEnd : ℕ := 0
  sessions : List (ℕ × ℕ) := []
  minWindowNs : ℕ := 10 * 60 * 1000000000
deriving DecidableEq

def Config.enabled (c : Config) : Bool := 0 < c.parentSz ∧ c.sessionStart < c.sessionEnd

/-- Session cumulatives of the market: all trades, and the trades of one aggressor. -/
structure Mark where
  cumVol : ℚ := 0
  cumNot : ℚ := 0
  cumAggVol : ℚ := 0
  cumAggNot : ℚ := 0
deriving DecidableEq

structure Leg where
  notional : ℚ := 0
  filled : ℚ := 0
  nFills : ℕ := 0
  started : ℕ := 0
  ended : ℕ := 0
  toDo : ℤ := 0
  endMid : ℤ := 0
  /-- `cum_*_first` -/
  first : Mark := {}
  /-- `cum_*_last` -/
  last : Mark := {}
  anchored : Bool := false
  done : Bool := false
deriving DecidableEq

/-- What the probe keeps for a side, with the side's position book. -/
structure Work where
  pcoord : ℤ := 0
  workGiven : ℤ := 0
  filledTotal : ℚ := 0
  leg : Leg := {}
deriving DecidableEq

structure State where
  cfg : Config
  windowOpen : Bool := false
  mktVolCum : ℚ := 0
  mktNotCum : ℚ := 0
  nWindows : ℕ := 0
  position : ℤ := 0
  fireTs : ℕ := 0
  buy : Work := {}
  sel : Work := {}
  mktVolHit : ℚ := 0
  mktNotHit : ℚ := 0
  mktVolTak : ℚ := 0
  mktNotTak : ℚ := 0
  posMax : ℤ := 0
  posMin : ℤ := 0
  posIntegral : ℚ := 0
  absIntegral : ℚ := 0
  posLastTim : ℕ := 0
  stallWarnAt : ℕ := 0
  midFire : ℤ := 0
  midClose : ℤ := 0
  askFire : ℤ := 0
  bidFire : ℤ := 0
  lastBid : ℤ := 0
  lastAsk : ℤ := 0
  lastTim : ℕ := 0
  firesDone : ℕ := 0
  firesPartial : ℕ := 0
  sessionIdx : ℕ := 0
  nEob : ℕ := 0
  nTicks : ℕ := 0
deriving DecidableEq

def init (c : Config) : State := { cfg := c }

def State.work (s : State) : Side → Work
  | .buy => s.buy
  | .sel => s.sel

def State.setWork (s : State) : Side → Work → State
  | .buy, w => { s with buy := w }
  | .sel, w => { s with sel := w }

/-- The cumulatives a side's leg is marked with: hits for the buy leg, takes for the sell leg. -/
def State.mark (s : State) : Side → Mark
  | .buy => ⟨s.mktVolCum, s.mktNotCum, s.mktVolHit, s.mktNotHit⟩
  | .sel => ⟨s.mktVolCum, s.mktNotCum, s.mktVolTak, s.mktNotTak⟩

/-! ### Messages and rows -/

/-- `som::msg::Fill`, as far as it is read. -/
structure Fill where
  sym : ℕ
  side : Side
  sz : ℚ
  pxi : ℤ
  tim : ℕ := 0
deriving DecidableEq

/-- The payload of a `TradeNotify`; `side` is the side of the resting order. -/
structure Trade where
  sym : ℕ
  sz : ℤ
  px : ℤ
  side : Side
  isTrade : Bool := true
deriving DecidableEq

inductive Event where
  | alarm (timerId now : ℕ)
  | eob (sym : ℕ) (bid ask : ℤ)
  | trade (payload : Option Trade)
  | fill (m : Fill)
  | shutdown
deriving DecidableEq

inductive Outcome where
  | ok | bothShort | buyShort | selShort | sessionEnd
deriving DecidableEq

/-- The columns of a leg in a row. -/
structure LegRow where
  vwap : ℚ
  filled : ℚ
  fills : ℕ
  ns : ℕ
  mktVol : ℚ
  part : ℚ
  mktVwap : ℚ
  aggVol : ℚ
  aggVwap : ℚ
deriving DecidableEq

structure Row where
  fireTs : ℕ
  parentSz : ℤ
  midFire : ℚ
  buy : LegRow
  sel : LegRow
  slipBuy : ℚ
  slipSel : ℚ
  slipPaired : ℚ
  buyDrift : ℚ
  selDrift : ℚ
  drift : ℚ
  slipBuyVsVwap : ℚ
  slipSelVsVwap : ℚ
  slipVsVwap : ℚ
  slipBuyVsHit : ℚ
  slipSelVsTak : ℚ
  slipVsAgg : ℚ
  askFire : ℤ
  bidSell : ℤ
  slipBuyVsTouch : ℚ
  slipSelVsTouch : ℚ
  slipVsTouch : ℚ
  posAtClose : ℤ
  posMax : ℤ
  posMin : ℤ
  posMean : ℚ
  posAbsMean : ℚ
  outcome : Outcome
deriving DecidableEq

inductive Out where
  | row (r : Row)
  /-- the log line of a window that waits past its minimum -/
  | stalled (nWindows : ℕ)
  /-- the summary at shutdown -/
  | summary (nWindows firesDone firesPartial nTicks nEob lastTim : ℕ)
      (lastBid lastAsk position : ℤ)
deriving DecidableEq

/-! ### A leg -/

/-- `Leg::mark`. -/
def Leg.mark (l : Leg) (m : Mark) : Option Leg :=
  if m.cumVol < l.last.cumVol then none
  else some { l with anchored := true, first := if l.anchored then l.first else m, last := m }

def Leg.mktVol (l : Leg) : ℚ := l.last.cumVol - l.first.cumVol

def Leg.mktNotional (l : Leg) : ℚ := l.last.cumNot - l.first.cumNot

def Leg.aggVol (l : Leg) : ℚ := l.last.cumAggVol - l.first.cumAggVol

def Leg.aggNotional (l : Leg) : ℚ := l.last.cumAggNot - l.first.cumAggNot

def Leg.vwap (l : Leg) : ℚ := if 0 < l.filled then l.notional / l.filled else 0

def Leg.mktVwap (l : Leg) : ℚ := if 0 < l.mktVol then l.mktNotional / l.mktVol else 0

def Leg.aggVwap (l : Leg) : ℚ := if 0 < l.aggVol then l.aggNotional / l.aggVol else 0

def Leg.participation (l : Leg) : ℚ := if 0 < l.mktVol then l.filled / l.mktVol else 0

def Leg.row (l : Leg) : LegRow where
  vwap := l.vwap
  filled := l.filled
  fills := l.nFills
  ns := subNs l.ended l.started
  mktVol := l.mktVol
  part := l.participation
  mktVwap := l.mktVwap
  aggVol := l.aggVol
  aggVwap := l.aggVwap

/-- The part of `fill_handler` below the `done` guard: `mid` is twice the mid, `stamp` the fill's
    stamp or else the last tick. -/
def Leg.takeFill (l : Leg) (m : Fill) (mk : Mark) (stamp : ℕ) (mid : ℤ) : Option Leg :=
  let l := { l with notional := l.notional + m.pxi * m.sz, filled := l.filled + m.sz,
                    nFills := l.nFills + 1 }
  (l.mark mk).map fun l =>
    let l :=
      if (l.toDo : ℚ) ≤ l.filled then
        { l with done := true, ended := max stamp l.started, endMid := mid }
      else l
    if m.tim ≠ 0 ∧ l.ended < m.tim then { l with ended := max m.tim l.started } else l

/-! ### A row -/

/-- The span the means are taken over. -/
def State.span (s : State) : ℚ :=
  if s.fireTs < s.lastTim then ((s.lastTim - s.fireTs : ℕ) : ℚ) else 0

/-- `emit_row`. -/
def State.emitRow (s : State) (outcome : Outcome) : Row :=
  let buy := s.buy.leg
  let sel := s.sel.leg
  let midf : ℚ := s.midFire / 2
  let both := 0 < buy.filled ∧ 0 < sel.filled
  let bv := buy.vwap
  let sv := sel.vwap
  let bhv := buy.aggVwap
  let stv := sel.aggVwap
  let slipBuyHit := if 0 < bhv ∧ 0 < buy.filled then bv - bhv else 0
  let slipSelTak := if 0 < stv ∧ 0 < sel.filled then stv - sv else 0
  let bmv := buy.mktVwap
  let smv := sel.mktVwap
  let slipBuyVwap := if 0 < bmv ∧ 0 < buy.filled then bv - bmv else 0
  let slipSelVwap := if 0 < smv ∧ 0 < sel.filled then smv - sv else 0
  let slipBuyTouch := if 0 < s.askFire ∧ 0 < buy.filled then bv - s.askFire else 0
  let slipSelTouch := if 0 < s.bidFire ∧ 0 < sel.filled then s.bidFire - sv else 0
  { fireTs := s.fireTs
    parentSz := s.cfg.parentSz
    midFire := midf
    buy := buy.row
    sel := sel.row
    slipBuy := if 0 < buy.filled then bv - midf else 0
    slipSel := if 0 < sel.filled then midf - sv else 0
    slipPaired := if both then (bv - sv) / 2 else 0
    buyDrift := if buy.done ∧ 0 < buy.endMid then ((buy.endMid - s.midFire : ℤ) : ℚ) / 2 else 0
    selDrift := if sel.done ∧ 0 < sel.endMid then ((sel.endMid - s.midFire : ℤ) : ℚ) / 2 else 0
    drift := if 0 < s.midClose then ((s.midClose - s.midFire : ℤ) : ℚ) / 2 else 0
    slipBuyVsVwap := slipBuyVwap
    slipSelVsVwap := slipSelVwap
    slipVsVwap := if 0 < bmv ∧ 0 < smv ∧ both then (slipBuyVwap + slipSelVwap) / 2 else 0
    slipBuyVsHit := slipBuyHit
    slipSelVsTak := slipSelTak
    slipVsAgg := if 0 < bhv ∧ 0 < stv ∧ both then (slipBuyHit + slipSelTak) / 2 else 0
    askFire := s.askFire
    bidSell := s.bidFire
    slipBuyVsTouch := slipBuyTouch
    slipSelVsTouch := slipSelTouch
    slipVsTouch := if 0 < s.askFire ∧ 0 < s.bidFire ∧ both then (slipBuyTouch + slipSelTouch) / 2
      else 0
    posAtClose := s.position
    posMax := s.posMax
    posMin := s.posMin
    posMean := if 0 < s.span then s.posIntegral / s.span else 0
    posAbsMean := if 0 < s.span then s.absIntegral / s.span else 0
    outcome := outcome }

/-! ### Opening and closing a window -/

/-- The lights of a side have work: the buy lights while the book is short, the sell lights while
    it is long. -/
def Work.working (w : Work) : Side → Bool
  | .buy => w.pcoord < 0
  | .sel => 0 < w.pcoord

/-- The loop `give` of `give_work`: parents are handed to a side, a round each, until its lights
    have work. -/
def Work.give (side : Side) (sz : ℤ) : ℕ → Work → Option Work
  | 0, _ => none
  | rounds + 1, w =>
      let w := { w with
        pcoord := addPosition side.other w.pcoord sz
        workGiven := w.workGiven + sz }
      if w.working side then some w else Work.give side sz rounds w

/-- The limit on the rounds of `give`. -/
def maxRounds : ℕ := 1000

/-- `give_work`. -/
def State.giveWork (s : State) : Option State :=
  if s.cfg.parentSz ≤ 0 then none
  else
    (s.buy.give .buy s.cfg.parentSz maxRounds).bind fun buy =>
      (s.sel.give .sel s.cfg.parentSz maxRounds).bind fun sel =>
        if buy.pcoord < 0 ∧ 0 < sel.pcoord then some { s with buy := buy, sel := sel } else none

/-- A side starts its window: the leg is reset, started and marked. -/
def Work.startLeg (w : Work) (now : ℕ) (m : Mark) : Option Work :=
  (({ started := now } : Leg).mark m).map fun leg => { w with leg := leg }

/-- A side's leg is told what it has to execute. -/
def Work.setToDo (w : Work) : Option Work :=
  let toDo := toInt (w.workGiven - w.filledTotal)
  if toDo ≤ 0 then none else some { w with leg := { w.leg with toDo := toDo } }

/-- `open_window`. -/
def State.openWindow (s : State) (now : ℕ) : Option State :=
  if 0 < s.lastBid ∧ 0 < s.lastAsk ∧ s.lastBid < s.lastAsk then
    (s.buy.startLeg now (s.mark .buy)).bind fun buy =>
      (s.sel.startLeg now (s.mark .sel)).bind fun sel =>
        let s := { s with
          fireTs := now
          midFire := s.lastBid + s.lastAsk
          askFire := s.lastAsk
          bidFire := s.lastBid
          midClose := 0
          posMax := s.position
          posMin := s.position
          posIntegral := 0
          absIntegral := 0
          posLastTim := now
          buy := buy
          sel := sel
          windowOpen := true
          stallWarnAt := 0
          nWindows := s.nWindows + 1 }
        s.giveWork.bind fun s =>
          s.buy.setToDo.bind fun buy =>
            s.sel.setToDo.bind fun sel => some { s with buy := buy, sel := sel }
  else none

/-- The segment from `last` to `now`, unless it is empty or negative. -/
def State.accrueFrom (s : State) (last now : ℕ) : State :=
  if last < now then
    let dt : ℚ := (now - last : ℕ)
    { s with
      posIntegral := s.posIntegral + s.position * dt
      absIntegral := s.absIntegral + |(s.position : ℚ)| * dt
      posLastTim := now }
  else { s with posLastTim := last }

/-- `accrue_inventory`. -/
def State.accrueInventory (s : State) (now : ℕ) : State :=
  if s.windowOpen then s.accrueFrom (if s.posLastTim = 0 then s.fireTs else s.posLastTim) now
  else s

/-- The time `close_window` closes at: the tick, or a later end of a leg. -/
def State.closeTime (s : State) (now : ℕ) : ℕ := max now (max s.buy.leg.ended s.sel.leg.ended)

/-- What `close_window` asserts of the closing time and the legs. -/
def State.CanClose (s : State) (now : ℕ) : Prop :=
  s.windowOpen ∧ (s.buy.leg.done ∧ s.sel.leg.done) ∧
    addNs s.fireTs s.cfg.minWindowNs ≤ now ∧ s.fireTs < now ∧
    (s.buy.leg.started ≤ s.buy.leg.ended ∧ s.buy.leg.ended ≤ now) ∧
    (s.sel.leg.started ≤ s.sel.leg.ended ∧ s.sel.leg.ended ≤ now) ∧
    (s.buy.leg.started = s.fireTs ∧ s.sel.leg.started = s.fireTs) ∧
    (0 < s.buy.leg.notional ∧ 0 < s.sel.leg.notional)

instance (s : State) (now : ℕ) : Decidable (s.CanClose now) :=
  inferInstanceAs (Decidable (_ ∧ _))

/-- `close_window`. -/
def State.closeWindow (s : State) (now : ℕ) : Option (State × Row) :=
  if s.CanClose (s.closeTime now) then
    let s := { s.accrueInventory (s.closeTime now) with midClose := s.lastBid + s.lastAsk }
    some ({ s with firesDone := s.firesDone + 1, windowOpen := false }, s.emitRow .ok)
  else none

/-! ### Handlers -/

/-- The day loop of `on_clock`, over the days that follow the current one. -/
def State.nextDay (now : ℕ) : List (ℕ × ℕ) → State → State
  | [], s => s
  | day :: days, s =>
      if !s.windowOpen && s.cfg.sessionEnd ≤ now then
        State.nextDay now days { s with
          sessionIdx := s.sessionIdx + 1
          cfg := { s.cfg with sessionStart := day.1, sessionEnd := day.2 } }
      else s

/-- Both legs have filled their size and the minimum has elapsed. -/
def State.Finished (s : State) (now : ℕ) : Prop :=
  addNs s.fireTs s.cfg.minWindowNs ≤ now ∧ s.buy.leg.done ∧ s.sel.leg.done

instance (s : State) (now : ℕ) : Decidable (s.Finished now) :=
  inferInstanceAs (Decidable (_ ∧ _))

/-- `on_clock` where the window stays open: a stall is logged once a minimum. -/
def State.wait (s : State) (now : ℕ) : State × List Out :=
  if addNs s.fireTs s.cfg.minWindowNs ≤ now then
    let past := now - addNs s.fireTs s.cfg.minWindowNs
    if s.stallWarnAt ≤ past then
      ({ s with stallWarnAt := addNs past s.cfg.minWindowNs }, [.stalled s.nWindows])
    else (s, [])
  else (s, [])

/-- `on_clock` after a window has closed: another is opened if it can complete in the session. -/
def State.reopen (s : State) (now : ℕ) : Option State :=
  if addNs now s.cfg.minWindowNs ≤ s.cfg.sessionEnd then s.openWindow now else some s

/-- `on_clock` below the day loop. -/
def State.inDay (s : State) (now : ℕ) : Option (State × List Out) :=
  if now < s.cfg.sessionStart then some (s, [])
  else if s.lastBid ≤ 0 ∨ s.lastAsk ≤ 0 then some (s, [])
  else if ¬ s.windowOpen then
    if now < s.cfg.sessionEnd then (s.openWindow now).map fun s => (s, []) else some (s, [])
  else if s.Finished now then
    (s.closeWindow now).bind fun r => (r.1.reopen now).map fun s => (s, [.row r.2])
  else some (s.wait now)

/-- `on_clock`. -/
def State.onClock (s : State) (now : ℕ) : Option (State × List Out) :=
  (State.nextDay now (s.cfg.sessions.drop (s.sessionIdx + 1)) s).inDay now

/-- `alarm_handler`. -/
def State.alarmHandler (s : State) (timerId now : ℕ) : Option (State × List Out) :=
  if !s.cfg.enabled || timerId ≠ probeTick then some (s, [])
  else
    let s := { s with nTicks := s.nTicks + 1 }
    if now = 0 then some (s, []) else { s with lastTim := now }.onClock now

/-- `eob_handler`. -/
def State.eobHandler (s : State) (sym : ℕ) (bid ask : ℤ) : State :=
  if !s.cfg.enabled || sym ≠ s.cfg.sym then s
  else
    let s := { s with nEob := s.nEob + 1 }
    if 0 < bid ∧ 0 < ask ∧ bid < ask then { s with lastBid := bid, lastAsk := ask } else s

/-- `trade_handler`. -/
def State.tradeHandler (s : State) : Option Trade → State
  | none => s
  | some p =>
      if !s.cfg.enabled || p.sym ≠ s.cfg.sym then s
      else
        let tsz : ℚ := p.sz
        let tnot := tsz * p.px
        let s := { s with mktVolCum := s.mktVolCum + tsz, mktNotCum := s.mktNotCum + tnot }
        if !p.isTrade then s
        else match p.side with
          | .buy => { s with mktVolHit := s.mktVolHit + tsz, mktNotHit := s.mktNotHit + tnot }
          | .sel => { s with mktVolTak := s.mktVolTak + tsz, mktNotTak := s.mktNotTak + tnot }

/-- The stamp of a fill, or else the last tick. -/
def State.stamp (s : State) (m : Fill) : ℕ := if m.tim ≠ 0 then m.tim else s.lastTim

/-- The position moves, and with it the extremes of the window. -/
def State.movePosition (s : State) (d : ℤ) : State :=
  { s with
    position := s.position + d
    posMax := max s.posMax (s.position + d)
    posMin := min s.posMin (s.position + d) }

/-- A fill counts in its side's total, and in the leg unless the leg is done. -/
def Work.takeFill (w : Work) (m : Fill) (mk : Mark) (stamp : ℕ) (mid : ℤ) : Option Work :=
  let w := { w with filledTotal := w.filledTotal + m.sz }
  if w.leg.done then some w
  else (w.leg.takeFill m mk stamp mid).map fun leg => { w with leg := leg }

/-- `fill_handler`. -/
def State.fillHandler (s : State) (m : Fill) : Option State :=
  if !s.cfg.enabled || m.sym ≠ s.cfg.sym then some s
  else if m.sz ≤ 0 then none
  else if m.pxi ≤ 0 then none
  else
    let s := (s.accrueInventory (s.stamp m)).movePosition (m.side.sign * toInt m.sz)
    ((s.work m.side).takeFill m (s.mark m.side) (s.stamp m) (s.lastBid + s.lastAsk)).map
      (s.setWork m.side)

/-- The light's `som_fill_handler`, as far as it touches the position book of its side. -/
def State.lightFill (s : State) (m : Fill) : State :=
  if m.sym = s.cfg.sym then
    s.setWork m.side { s.work m.side with
      pcoord := addPosition m.side (s.work m.side).pcoord (toInt m.sz) }
  else s

/-- A leg that never finished is stamped with the cut-off. -/
def Work.cutOff (w : Work) (now : ℕ) : Work :=
  if w.leg.done then w else { w with leg := { w.leg with ended := now } }

/-- The outcome `shutdown_handler` gives a window still open. -/
def State.cutOffOutcome (s : State) : Outcome :=
  match s.buy.leg.done, s.sel.leg.done with
  | false, false => .bothShort
  | false, true => .buyShort
  | true, false => .selShort
  | true, true => .sessionEnd

/-- `shutdown_handler`. -/
def State.shutdownHandler (s : State) : State × List Out :=
  if !s.cfg.enabled then (s, [])
  else
    let r : State × List Out :=
      if s.windowOpen then
        let s := { s with buy := s.buy.cutOff s.lastTim, sel := s.sel.cutOff s.lastTim }
        let s := { s.accrueInventory s.lastTim with midClose := s.lastBid + s.lastAsk }
        ({ s with firesPartial := s.firesPartial + 1, windowOpen := false },
          [.row (s.emitRow s.cutOffOutcome)])
      else (s, [])
    (r.1, r.2 ++ [.summary r.1.nWindows r.1.firesDone r.1.firesPartial r.1.nTicks r.1.nEob
      r.1.lastTim r.1.lastBid r.1.lastAsk r.1.position])

/-- A message is handled. -/
def step (s : State) : Event → Option (State × List Out)
  | .alarm timerId now => s.alarmHandler timerId now
  | .eob sym bid ask => some (s.eobHandler sym bid ask, [])
  | .trade payload => some (s.tradeHandler payload, [])
  | .fill m => ((s.lightFill m).fillHandler m).map fun s => (s, [])
  | .shutdown => some s.shutdownHandler

end KasparHft.Probe
