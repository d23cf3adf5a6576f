import KasparHft.SlippageProbe
import KasparHft.Machine

/-!
# What one message does to the slippage probe

`Effect` lists what a step can do: leave the measurement alone, open a window, close one (and
perhaps open the next), take a fill, or cut a window off.  `step_effect` is the one place where
the handlers are unfolded; the accounts of the work and of the inventory start from it.
-/

namespace KasparHft.Probe

open Light22 (addPosition)
open Som (toInt)

variable {s s' : State} {now : ℕ} {o : List Out}

/-! ### Sides -/

@[simp] theorem work_setWork (s : State) (side : Side) (w : Work) :
    (s.setWork side w).work side = w := by
  cases side <;> rfl

theorem work_setWork_of_ne (s : State) {a b : Side} (h : a ≠ b) (w : Work) :
    (s.setWork b w).work a = s.work a := by
  cases a <;> cases b <;> first | rfl | exact absurd rfl h

/-- How far the book of a side is from flat, counted down by the side's fills; a side that has
    passed flat is at a negative distance. -/
def Work.toFlat (w : Work) (side : Side) : ℤ := -(side.sign * w.pcoord)

theorem working_iff (w : Work) (side : Side) : w.working side = true ↔ 0 < w.toFlat side := by
  cases side <;> simp [Work.working, Work.toFlat]

/-! ### Opening a window -/

/-- A side at the opening of a window: whole parents were handed out until there was work, and the
    leg starts from nothing with the work outstanding. -/
structure Work.Opens (w : Work) (side : Side) (sz : ℤ) (now : ℕ) (w' : Work) : Prop where
  given : ∃ k : ℤ, w'.toFlat side = w.toFlat side + k * sz ∧ w'.workGiven = w.workGiven + k * sz
  working : 0 < w'.toFlat side
  filledTotal : w'.filledTotal = w.filledTotal
  toDo : w'.leg.toDo = toInt (w'.workGiven - w'.filledTotal)
  toDo_pos : 0 < w'.leg.toDo
  filled : w'.leg.filled = 0
  notDone : w'.leg.done = false
  started : w'.leg.started = now
  ended : w'.leg.ended = 0

theorem give_some {side : Side} {sz : ℤ} (hsz : 0 < sz) {rounds : ℕ} {w w' : Work}
    (h : w.give side sz rounds = some w') :
    (∃ k : ℤ, w'.toFlat side = w.toFlat side + k * sz ∧ w'.workGiven = w.workGiven + k * sz) ∧
      0 < w'.toFlat side ∧ w'.filledTotal = w.filledTotal ∧ w'.leg = w.leg := by
  induction rounds generalizing w with
  | zero => cases h
  | succ rounds ih =>
      unfold Work.give at h
      dsimp only at h
      -- one round: the book moves a parent away from flat
      have hround : Work.toFlat { w with
          pcoord := addPosition side.other w.pcoord sz
          workGiven := w.workGiven + sz } side = w.toFlat side + sz := by
        unfold Work.toFlat addPosition
        rw [if_neg (by omega)]
        cases side with
        | buy =>
            simp [Side.other]
            ring
        | sel => simp [Side.other]
      split at h
      next hworking =>
        cases h
        exact ⟨⟨1, by rw [hround, one_mul], by rw [one_mul]⟩,
          (working_iff _ side).mp hworking, rfl, rfl⟩
      next =>
        obtain ⟨⟨k, hflat, hgiven⟩, hpos, hfilled, hleg⟩ := ih h
        refine ⟨⟨k + 1, ?_, ?_⟩, hpos, hfilled, hleg⟩
        · rw [hflat, hround]
          ring
        · rw [hgiven]
          ring

theorem startLeg_some {w w' : Work} {m : Mark} (h : w.startLeg now m = some w') :
    ∃ leg, w' = { w with leg := leg } ∧ leg.filled = 0 ∧ leg.done = false ∧ leg.started = now ∧
      leg.ended = 0 := by
  unfold Work.startLeg Leg.mark at h
  rw [Option.map_eq_some_iff] at h
  obtain ⟨leg, hleg, rfl⟩ := h
  split at hleg
  · cases hleg
  · cases hleg
    exact ⟨_, rfl, rfl, rfl, rfl, rfl⟩

theorem setToDo_some {w w' : Work} (h : w.setToDo = some w') :
    0 < toInt (w.workGiven - w.filledTotal) ∧
      w' = { w with leg := { w.leg with toDo := toInt (w.workGiven - w.filledTotal) } } := by
  unfold Work.setToDo at h
  dsimp only at h
  split at h
  · cases h
  next hpos =>
    cases h
    exact ⟨by omega, rfl⟩

/-- The three stages of an opening, on one side. -/
theorem opens_of_stages {side : Side} {sz : ℤ} (hsz : 0 < sz) {rounds : ℕ} {m : Mark}
    {w w₁ w₂ w₃ : Work} (hstart : w.startLeg now m = some w₁)
    (hgive : w₁.give side sz rounds = some w₂) (htoDo : w₂.setToDo = some w₃) :
    w.Opens side sz now w₃ := by
  obtain ⟨leg, rfl, hfilled, hdone, hstarted, hended⟩ := startLeg_some hstart
  obtain ⟨hgiven, hworking, hkept, hleg⟩ := give_some hsz hgive
  obtain ⟨hpos, rfl⟩ := setToDo_some htoDo
  constructor
  case given => exact hgiven
  case working => exact hworking
  case filledTotal => exact hkept
  case toDo => rfl
  case toDo_pos => exact hpos
  all_goals
    dsimp only
    rw [hleg]
    assumption

/-- The state after an opening. -/
def State.opened (s : State) (now : ℕ) (buy sel : Work) : State :=
  { s with
    fireTs := now
    midFire := s.lastBid + s.lastAsk
    askFire := s.lastAsk
    bidFire := s.lastBid
    midClose := 0
    posMax := s.position
    posMin := s.position
    posIntegral := 0
    absIntegral := 0
    posLastTim := now
    buy := buy
    sel := sel
    windowOpen := true
    stallWarnAt := 0
    nWindows := s.nWindows + 1 }

/-- What an opening did. -/
structure Opens (s : State) (now : ℕ) (s' : State) : Prop where
  touch : 0 < s.lastBid ∧ 0 < s.lastAsk
  parentSz : 0 < s.cfg.parentSz
  work : ∃ buy sel, s.buy.Opens .buy s.cfg.parentSz now buy ∧
    s.sel.Opens .sel s.cfg.parentSz now sel ∧ s' = s.opened now buy sel

theorem openWindow_some (h : s.openWindow now = some s') : Opens s now s' := by
  unfold State.openWindow at h
  split at h
  next htouch =>
    simp only [Option.bind_eq_some_iff] at h
    obtain ⟨buy₁, hbuy₁, sel₁, hsel₁, s₁, hgive, buy₃, hbuy₃, sel₃, hsel₃, hs'⟩ := h
    unfold State.giveWork at hgive
    split at hgive
    · cases hgive
    next hsz =>
      simp only [Option.bind_eq_some_iff] at hgive
      obtain ⟨buy₂, hbuy₂, sel₂, hsel₂, hgive⟩ := hgive
      split at hgive
      next =>
        cases hgive
        cases hs'
        have hpos : 0 < s.cfg.parentSz := Int.not_le.mp hsz
        exact ⟨⟨htouch.1, htouch.2.1⟩, hpos, buy₃, sel₃,
          opens_of_stages hpos hbuy₁ hbuy₂ hbuy₃, opens_of_stages hpos hsel₁ hsel₂ hsel₃, rfl⟩
      next => cases hgive
  next => cases h

/-! ### Steps that leave the measurement alone -/

/-- What a row is made of: the market, the clock, the counters and the day left out. -/
def State.measured (s : State) : State :=
  { s with
    cfg := { sym := s.cfg.sym, parentSz := s.cfg.parentSz }
    mktVolCum := 0, mktNotCum := 0, mktVolHit := 0, mktNotHit := 0, mktVolTak := 0, mktNotTak := 0
    stallWarnAt := 0, lastBid := 0, lastAsk := 0, lastTim := 0
    sessionIdx := 0, nEob := 0, nTicks := 0 }

/-- Nothing that is measured has changed; the day changes only with no window open. -/
structure Quiet (s s' : State) : Prop where
  measured : s'.measured = s.measured
  cfg : s.windowOpen = true → s'.cfg = s.cfg
  enabled : s'.cfg.enabled = true → s.cfg.enabled = true
  touch : 0 < s.lastBid ∧ 0 < s.lastAsk → 0 < s'.lastBid ∧ 0 < s'.lastAsk

theorem Quiet.refl (s : State) : Quiet s s := ⟨rfl, fun _ => rfl, id, id⟩

section Quiet

variable (h : Quiet s s')

include h

theorem Quiet.field {α : Type*} (f : State → α) (hf : ∀ t : State, f t.measured = f t) :
    f s' = f s :=
  (hf s').symm.trans ((congrArg f h.measured).trans (hf s))

theorem Quiet.sym : s'.cfg.sym = s.cfg.sym := h.field (fun t => t.cfg.sym) fun _ => rfl

theorem Quiet.windowOpen : s'.windowOpen = s.windowOpen := h.field State.windowOpen fun _ => rfl

theorem Quiet.nWindows : s'.nWindows = s.nWindows := h.field State.nWindows fun _ => rfl

theorem Quiet.position : s'.position = s.position := h.field State.position fun _ => rfl

theorem Quiet.fireTs : s'.fireTs = s.fireTs := h.field State.fireTs fun _ => rfl

theorem Quiet.posMax : s'.posMax = s.posMax := h.field State.posMax fun _ => rfl

theorem Quiet.posMin : s'.posMin = s.posMin := h.field State.posMin fun _ => rfl

theorem Quiet.posIntegral : s'.posIntegral = s.posIntegral := h.field State.posIntegral fun _ => rfl

theorem Quiet.absIntegral : s'.absIntegral = s.absIntegral := h.field State.absIntegral fun _ => rfl

theorem Quiet.posLastTim : s'.posLastTim = s.posLastTim := h.field State.posLastTim fun _ => rfl

theorem Quiet.work (side : Side) : s'.work side = s.work side :=
  h.field (fun t => t.work side) fun _ => by cases side <;> rfl

theorem Quiet.trans {s'' : State} (h' : Quiet s' s'') : Quiet s s'' where
  measured := h'.measured.trans h.measured
  cfg hopen := (h'.cfg (h.windowOpen.trans hopen)).trans (h.cfg hopen)
  enabled he := h.enabled (h'.enabled he)
  touch ht := h'.touch (h.touch ht)

end Quiet

theorem nextDay_of_open (h : s.windowOpen = true) (days : List (ℕ × ℕ)) :
    State.nextDay now days s = s := by
  cases days with
  | nil => rfl
  | cons day days =>
      unfold State.nextDay
      rw [h]
      rfl

/-- The day loop changes the day only. -/
theorem nextDay_eq (now : ℕ) (days : List (ℕ × ℕ)) (s : State) :
    ∃ start stop idx, State.nextDay now days s =
      { s with
        cfg := { s.cfg with sessionStart := start, sessionEnd := stop }
        sessionIdx := idx } := by
  induction days generalizing s with
  | nil => exact ⟨_, _, _, rfl⟩
  | cons day days ih =>
      unfold State.nextDay
      split
      · obtain ⟨start, stop, idx, heq⟩ := ih { s with
          sessionIdx := s.sessionIdx + 1
          cfg := { s.cfg with sessionStart := day.1, sessionEnd := day.2 } }
        exact ⟨start, stop, idx, heq⟩
      · exact ⟨_, _, _, rfl⟩

/-- A tick is counted and read. -/
def State.clocked (s : State) (now : ℕ) : State :=
  { s with nTicks := s.nTicks + 1, lastTim := now }

/-- A tick of an armed probe, up to the tests of `on_clock`. -/
def State.tick (s : State) (now : ℕ) : State :=
  State.nextDay now (s.cfg.sessions.drop (s.sessionIdx + 1)) (s.clocked now)

theorem tick_of_open (h : s.windowOpen = true) (now : ℕ) : s.tick now = s.clocked now :=
  nextDay_of_open (s := s.clocked now) h _

theorem tick_quiet (henabled : s.cfg.enabled = true) (now : ℕ) : Quiet s (s.tick now) := by
  have hcfg : s.windowOpen = true → (s.tick now).cfg = s.cfg := fun hopen => by
    rw [tick_of_open hopen]
    rfl
  obtain ⟨start, stop, idx, heq⟩ :=
    nextDay_eq now (s.cfg.sessions.drop (s.sessionIdx + 1)) (s.clocked now)
  unfold State.tick at hcfg ⊢
  rw [heq] at hcfg ⊢
  exact ⟨rfl, hcfg, fun _ => henabled, id⟩

theorem wait_quiet (s : State) (now : ℕ) :
    Quiet s (s.wait now).1 ∧ ∀ r, .row r ∉ (s.wait now).2 := by
  unfold State.wait
  split
  · dsimp only
    split
    · exact ⟨⟨rfl, fun _ => rfl, id, id⟩, by simp⟩
    · exact ⟨.refl s, by simp⟩
  · exact ⟨.refl s, by simp⟩

theorem eobHandler_quiet (s : State) (sym : ℕ) (bid ask : ℤ) :
    Quiet s (s.eobHandler sym bid ask) := by
  unfold State.eobHandler
  split
  · exact .refl s
  · dsimp only
    split
    next htouch => exact ⟨rfl, fun _ => rfl, id, fun _ => ⟨htouch.1, htouch.2.1⟩⟩
    next => exact ⟨rfl, fun _ => rfl, id, id⟩

theorem tradeHandler_quiet (s : State) (payload : Option Trade) :
    Quiet s (s.tradeHandler payload) := by
  cases payload with
  | none => exact .refl s
  | some p =>
      dsimp only [State.tradeHandler]
      split
      · exact .refl s
      · split
        · exact ⟨rfl, fun _ => rfl, id, id⟩
        · split
          · exact ⟨rfl, fun _ => rfl, id, id⟩
          · exact ⟨rfl, fun _ => rfl, id, id⟩

/-! ### What a step can do -/

/-- The inventory is accrued to a fill and moved by it. -/
def State.moved (s : State) (m : Fill) : State :=
  (s.accrueInventory (s.stamp m)).movePosition (m.side.sign * toInt m.sz)

/-- A fill of the probe's instrument in the books of the lights and of the probe. -/
def State.filled (s : State) (m : Fill) (w : Work) : State := (s.moved m).setWork m.side w

/-- The work of a fill's side once the light has moved the position book. -/
def State.lightWork (s : State) (m : Fill) : Work :=
  { s.work m.side with pcoord := addPosition m.side (s.work m.side).pcoord (toInt m.sz) }

/-- A window cut off by the shutdown, as its row is emitted. -/
def State.atCutOff (s : State) : State :=
  { State.accrueInventory
      { s with buy := s.buy.cutOff s.lastTim, sel := s.sel.cutOff s.lastTim } s.lastTim with
    midClose := s.lastBid + s.lastAsk }

/-- A window that closes at a tick, as its row is emitted. -/
def State.atClose (s : State) (now : ℕ) : State :=
  { s.accrueInventory (s.closeTime now) with midClose := s.lastBid + s.lastAsk }

/-- The state with the window closed. -/
def State.closed (s : State) (now : ℕ) : State :=
  { s.atClose now with firesDone := (s.atClose now).firesDone + 1, windowOpen := false }

/-- The state with the window cut off. -/
def State.stopped (s : State) : State :=
  { s.atCutOff with firesPartial := s.atCutOff.firesPartial + 1, windowOpen := false }

/-- A tick closes the window. -/
def State.Closes (s : State) (timerId now : ℕ) : Prop :=
  s.cfg.enabled ∧ timerId = probeTick ∧ 0 < now ∧ s.cfg.sessionStart ≤ now ∧
    (0 < s.lastBid ∧ 0 < s.lastAsk) ∧ s.windowOpen ∧ s.Finished now

instance (s : State) (timerId now : ℕ) : Decidable (s.Closes timerId now) :=
  inferInstanceAs (Decidable (_ ∧ _))

/-- The message is no fill of the instrument, closes no window and cuts none off. -/
def State.Idle (s : State) : Event → Prop
  | .alarm timerId now => ¬ s.Closes timerId now
  | .fill m => m.sym ≠ s.cfg.sym
  | .shutdown => s.cfg.enabled = false ∨ s.windowOpen = false
  | _ => True

/-- What a step can do. -/
inductive Effect (s : State) : Event → State → List Out → Prop where
  | quiet {e : Event} {s' : State} {o : List Out} (hquiet : Quiet s s')
      (hrow : ∀ r, .row r ∉ o) (hidle : s.Idle e) : Effect s e s' o
  | opens {now : ℕ} {s₁ s' : State} (henabled : s.cfg.enabled = true) (hnow : 0 < now)
      (hquiet : Quiet s s₁) (hclosed : s.windowOpen = false)
      (hsession : s₁.cfg.sessionStart < s₁.cfg.sessionEnd) (hopens : Opens s₁ now s') :
      Effect s (.alarm probeTick now) s' []
  | closes {now : ℕ} {s' : State} (hcloses : s.Closes probeTick now)
      (hcan : (s.clocked now).CanClose (s.closeTime now))
      (hnext : s' = (s.clocked now).closed now ∨ Opens ((s.clocked now).closed now) now s') :
      Effect s (.alarm probeTick now) s' [.row (((s.clocked now).atClose now).emitRow .ok)]
  | fill {m : Fill} {w : Work} (henabled : s.cfg.enabled = true) (hsym : m.sym = s.cfg.sym)
      (hsz : 0 < m.sz)
      (hw : (s.lightWork m).takeFill m (s.mark m.side) (s.stamp m) (s.lastBid + s.lastAsk) =
        some w) : Effect s (.fill m) (s.filled m w) []
  | strayFill {m : Fill} (hdisabled : s.cfg.enabled = false) :
      Effect s (.fill m) (s.setWork m.side (s.lightWork m)) []
  | cutOff {o : List Out} (henabled : s.cfg.enabled = true) (hopen : s.windowOpen = true)
      (hrow : ∀ r, .row r ∈ o ↔ r = s.atCutOff.emitRow s.atCutOff.cutOffOutcome) :
      Effect s .shutdown s.stopped o

theorem closeWindow_some {r : Row} (h : s.closeWindow now = some (s', r)) :
    s.CanClose (s.closeTime now) ∧ s' = s.closed now ∧ r = (s.atClose now).emitRow .ok := by
  unfold State.closeWindow at h
  split at h
  next hcan =>
    cases h
    exact ⟨hcan, rfl, rfl⟩
  next => cases h

/-- Accruing touches the integrals and their time only. -/
theorem accrue_eq (s : State) (t : ℕ) : ∃ pos abs last, s.accrueInventory t =
    { s with posIntegral := pos, absIntegral := abs, posLastTim := last } := by
  have hfrom : ∀ start, ∃ pos abs last, s.accrueFrom start t =
      { s with posIntegral := pos, absIntegral := abs, posLastTim := last } := by
    intro start
    unfold State.accrueFrom
    split
    · exact ⟨_, _, _, rfl⟩
    · exact ⟨_, _, _, rfl⟩
  unfold State.accrueInventory
  by_cases hopen : s.windowOpen = true
  · rw [if_pos hopen]
    exact hfrom _
  · rw [if_neg hopen]
    exact ⟨_, _, _, rfl⟩

theorem accrue_setWork (s : State) (side : Side) (w : Work) (t : ℕ) :
    (s.setWork side w).accrueInventory t = (s.accrueInventory t).setWork side w := by
  have hfrom : ∀ last, (s.setWork side w).accrueFrom last t =
      (s.accrueFrom last t).setWork side w := by
    intro last
    unfold State.accrueFrom
    split
    · cases side <;> rfl
    · cases side <;> rfl
  have hopen : (s.setWork side w).windowOpen = s.windowOpen := by cases side <;> rfl
  have hlast : (s.setWork side w).posLastTim = s.posLastTim := by cases side <;> rfl
  have hfire : (s.setWork side w).fireTs = s.fireTs := by cases side <;> rfl
  unfold State.accrueInventory
  rw [hopen, hlast, hfire, hfrom]
  split
  · rfl
  · rfl

/-- What the light wrote to the work of the fill's side is overwritten by the probe. -/
theorem filled_setWork (s : State) (m : Fill) (w w' : Work) :
    (s.setWork m.side w).filled m w' = s.filled m w' := by
  have hstamp : (s.setWork m.side w).stamp m = s.stamp m := by cases m.side <;> rfl
  unfold State.filled State.moved
  rw [hstamp, accrue_setWork]
  cases m.side <;> rfl

/-! ### What the steps leave alone -/

theorem closed_frame (s : State) (now : ℕ) :
    ((s.clocked now).closed now).cfg = s.cfg ∧ ((s.clocked now).closed now).windowOpen = false ∧
      ((s.clocked now).closed now).nWindows = s.nWindows ∧
      ∀ side, ((s.clocked now).closed now).work side = s.work side := by
  obtain ⟨pos, abs, last, heq⟩ := accrue_eq (s.clocked now) ((s.clocked now).closeTime now)
  unfold State.closed State.atClose
  rw [heq]
  refine ⟨rfl, rfl, rfl, fun side => ?_⟩
  cases side <;> rfl

theorem stopped_frame (s : State) :
    s.stopped.cfg = s.cfg ∧ s.stopped.windowOpen = false ∧ s.stopped.nWindows = s.nWindows ∧
      ∀ side, s.stopped.work side = (s.work side).cutOff s.lastTim := by
  obtain ⟨pos, abs, last, heq⟩ := accrue_eq
    { s with buy := s.buy.cutOff s.lastTim, sel := s.sel.cutOff s.lastTim } s.lastTim
  unfold State.stopped State.atCutOff
  rw [heq]
  refine ⟨rfl, rfl, rfl, fun side => ?_⟩
  cases side <;> rfl

theorem filled_frame (s : State) (m : Fill) (w : Work) :
    (s.filled m w).cfg = s.cfg ∧ (s.filled m w).windowOpen = s.windowOpen ∧
      (s.filled m w).nWindows = s.nWindows ∧
      ((s.filled m w).lastBid = s.lastBid ∧ (s.filled m w).lastAsk = s.lastAsk) ∧
      ((s.filled m w).work m.side = w ∧
        ∀ side, side ≠ m.side → (s.filled m w).work side = s.work side) := by
  obtain ⟨pos, abs, last, heq⟩ := accrue_eq s (s.stamp m)
  unfold State.filled State.moved
  rw [heq]
  cases m.side with
  | buy =>
      refine ⟨rfl, rfl, rfl, ⟨rfl, rfl⟩, rfl, fun side hside => ?_⟩
      cases side with
      | buy => exact absurd rfl hside
      | sel => rfl
  | sel =>
      refine ⟨rfl, rfl, rfl, ⟨rfl, rfl⟩, rfl, fun side hside => ?_⟩
      cases side with
      | buy => rfl
      | sel => exact absurd rfl hside

theorem stamp_of_tim (s : State) (m : Fill) (h : m.tim ≠ 0) : s.stamp m = m.tim := if_pos h

/-- `on_clock` at a tick that does not close the window. -/
theorem inDay_idle (hnot : ¬ s.Closes probeTick now) (henabled : s.cfg.enabled = true)
    (hnow : now ≠ 0) (h : (s.tick now).inDay now = some (s', o)) :
    Effect s (.alarm probeTick now) s' o := by
  have hquiet := tick_quiet henabled now
  unfold State.inDay at h
  split at h
  · cases h
    exact .quiet hquiet (by simp) hnot
  next hstart =>
    split at h
    · cases h
      exact .quiet hquiet (by simp) hnot
    next htouch =>
      split at h
      next hclosed =>
        split at h
        next hsession =>
          obtain ⟨s₂, hopens, heq⟩ := Option.map_eq_some_iff.mp h
          cases heq
          rw [hquiet.windowOpen, Bool.not_eq_true] at hclosed
          exact .opens henabled (Nat.pos_of_ne_zero hnow) hquiet hclosed (by omega)
            (openWindow_some hopens)
        next =>
          cases h
          exact .quiet hquiet (by simp) hnot
      next hopen =>
        rw [hquiet.windowOpen, not_not] at hopen
        rw [tick_of_open hopen] at hstart htouch h hquiet
        split at h
        next hfinished =>
          have hbid : 0 < s.lastBid := Int.not_le.mp fun hle => htouch (.inl hle)
          have hask : 0 < s.lastAsk := Int.not_le.mp fun hle => htouch (.inr hle)
          exact absurd ⟨henabled, rfl, Nat.pos_of_ne_zero hnow, Nat.not_lt.mp hstart,
            ⟨hbid, hask⟩, hopen, hfinished⟩ hnot
        next =>
          obtain ⟨hwait, hrow⟩ := wait_quiet (s.clocked now) now
          rw [Option.some.inj h] at hwait hrow
          exact .quiet (hquiet.trans hwait) hrow hnot

/-- `on_clock` at a tick that closes the window. -/
theorem inDay_closes (hcloses : s.Closes probeTick now)
    (h : (s.tick now).inDay now = some (s', o)) : Effect s (.alarm probeTick now) s' o := by
  obtain ⟨-, -, -, hstart, ⟨hbid, hask⟩, hopen, hfinished⟩ := id hcloses
  have htouch : ¬ ((s.clocked now).lastBid ≤ 0 ∨ (s.clocked now).lastAsk ≤ 0) := by
    rintro (hle | hle)
    · exact absurd hle (Int.not_le.mpr hbid)
    · exact absurd hle (Int.not_le.mpr hask)
  rw [tick_of_open hopen] at h
  unfold State.inDay at h
  rw [if_neg (show ¬ now < (s.clocked now).cfg.sessionStart from Nat.not_lt.mpr hstart),
    if_neg htouch, if_neg (show ¬ ¬ (s.clocked now).windowOpen = true from not_not_intro hopen),
    if_pos (show (s.clocked now).Finished now from hfinished)] at h
  obtain ⟨⟨s₂, r⟩, hclosed, hmap⟩ := Option.bind_eq_some_iff.mp h
  obtain ⟨s₃, hreopen, heq⟩ := Option.map_eq_some_iff.mp hmap
  cases heq
  obtain ⟨hcan, rfl, rfl⟩ := closeWindow_some hclosed
  refine .closes hcloses hcan ?_
  dsimp only at hreopen
  unfold State.reopen at hreopen
  split at hreopen
  · exact .inr (openWindow_some hreopen)
  · cases hreopen
    exact .inl rfl

theorem alarmHandler_effect {timerId : ℕ} (h : s.alarmHandler timerId now = some (s', o)) :
    Effect s (.alarm timerId now) s' o := by
  unfold State.alarmHandler at h
  split at h
  next hskip =>
    cases h
    refine .quiet (.refl s) (by simp) fun hcloses => ?_
    simp [hcloses.1, hcloses.2.1] at hskip
  next harmed =>
    simp only [Bool.or_eq_true, Bool.not_eq_true', decide_eq_true_eq, not_or, Bool.not_eq_false,
      not_not] at harmed
    obtain ⟨henabled, rfl⟩ := harmed
    dsimp only at h
    split at h
    next hzero =>
      cases h
      refine .quiet ⟨rfl, fun _ => rfl, id, id⟩ (by simp) fun hcloses => ?_
      exact Nat.not_lt_zero _ (hzero ▸ hcloses.2.2.1)
    next hnow =>
      by_cases hcloses : s.Closes probeTick now
      · exact inDay_closes hcloses h
      · exact inDay_idle hcloses henabled hnow h

/-- The probe takes the fill with the work the light left and with the market as it was. -/
theorem takeFill_moved (s : State) (m : Fill) (w : Work) :
    ((s.setWork m.side w).moved m).work m.side = w ∧
      ((s.setWork m.side w).moved m).mark m.side = s.mark m.side ∧
      ((s.setWork m.side w).moved m).stamp m = s.stamp m ∧
      ((s.setWork m.side w).moved m).lastBid = s.lastBid ∧
      ((s.setWork m.side w).moved m).lastAsk = s.lastAsk := by
  obtain ⟨pos, abs, last, heq⟩ :=
    accrue_eq (s.setWork m.side w) ((s.setWork m.side w).stamp m)
  unfold State.moved
  rw [heq]
  cases m.side <;> exact ⟨rfl, rfl, rfl, rfl, rfl⟩

theorem fill_effect {m : Fill} (h : (s.lightFill m).fillHandler m = some s') :
    Effect s (.fill m) s' [] := by
  by_cases hsym : m.sym = s.cfg.sym
  · have hlight : s.lightFill m = s.setWork m.side (s.lightWork m) := if_pos hsym
    have hcfg : (s.setWork m.side (s.lightWork m)).cfg = s.cfg := by cases m.side <;> rfl
    rw [hlight] at h
    unfold State.fillHandler at h
    rw [hcfg] at h
    split at h
    next hskip =>
      cases h
      simp only [hsym, ne_eq, not_true_eq_false, decide_false, Bool.or_false,
        Bool.not_eq_true'] at hskip
      exact .strayFill hskip
    next htakes =>
      have henabled : s.cfg.enabled = true := by
        simp only [Bool.or_eq_true, Bool.not_eq_true', not_or, Bool.not_eq_false] at htakes
        exact htakes.1
      split at h
      · cases h
      next hsz =>
        split at h
        · cases h
        next =>
          rw [Option.map_eq_some_iff] at h
          obtain ⟨w, hw, rfl⟩ := h
          obtain ⟨hwork, hmark, hstamp, hbid, hask⟩ := takeFill_moved s m (s.lightWork m)
          unfold State.moved at hwork hmark hstamp hbid hask
          rw [hwork, hmark, hstamp, hbid, hask] at hw
          change Effect s (.fill m) ((s.setWork m.side (s.lightWork m)).filled m w) []
          rw [filled_setWork]
          refine .fill henabled hsym (by simpa using hsz) ?_
          exact hw
  · have hlight : s.lightFill m = s := if_neg hsym
    rw [hlight] at h
    unfold State.fillHandler at h
    split at h
    · cases h
      exact .quiet (.refl s) (by simp) hsym
    next htakes => exact absurd (by simp [hsym]) htakes

/-- **What a step does.** -/
theorem step_effect {e : Event} (h : step s e = some (s', o)) : Effect s e s' o := by
  cases e with
  | alarm timerId now => exact alarmHandler_effect h
  | eob sym bid ask =>
      cases h
      exact .quiet (eobHandler_quiet s sym bid ask) (by simp) trivial
  | trade payload =>
      cases h
      exact .quiet (tradeHandler_quiet s payload) (by simp) trivial
  | fill m =>
      obtain ⟨t, hfill, heq⟩ := Option.map_eq_some_iff.mp h
      cases heq
      exact fill_effect hfill
  | shutdown =>
      have hresult : s.shutdownHandler = (s', o) := Option.some.inj h
      unfold State.shutdownHandler at hresult
      split at hresult
      next hdisabled =>
        cases hresult
        exact .quiet (.refl s) (by simp) (.inl (by simpa using hdisabled))
      next henabled =>
        rw [Bool.not_eq_true', Bool.not_eq_false] at henabled
        dsimp only at hresult
        by_cases hopen : s.windowOpen = true
        · rw [if_pos hopen] at hresult
          cases hresult
          exact .cutOff henabled hopen (by simp [State.atCutOff])
        · rw [if_neg hopen] at hresult
          cases hresult
          exact .quiet (.refl s) (by simp) (.inr (by simpa using hopen))

end KasparHft.Probe
