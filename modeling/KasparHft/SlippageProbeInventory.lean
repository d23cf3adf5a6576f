import KasparHft.SlippageProbeWork
import KasparHft.TimeWeighted

/-!
# The inventory of a window

`accrue_inventory` adds a segment of the position to the integrals at each fill, at the close of
a window and at the cut-off.  The segments of a window follow one another from its start to the
last stamp seen, which may be later than the tick that closes the window; the means divide by
the time up to that tick.  A row is right where no stamp of its window is later than the tick
its span ends at.
-/

namespace KasparHft.Probe

open Machine TimeWeighted
open Som (toInt)

variable {c : Config} {s s' : State} {g g' : List (Segment ℚ)} {e : Event} {o : List Out}
  {now t : ℕ}

/-! ### Segments -/

/-- The segment `accrue_inventory` adds, if any. -/
def State.segment (s : State) (t : ℕ) : List (Segment ℚ) :=
  let last := if s.posLastTim = 0 then s.fireTs else s.posLastTim
  if s.windowOpen ∧ last < t then [⟨last, t, s.position⟩] else []

/-- The time a message calls `accrue_inventory` with. -/
def State.accruesAt (s : State) : Event → Option ℕ
  | .alarm timerId now => if s.Closes timerId now then some (s.closeTime now) else none
  | .fill m => if s.cfg.enabled ∧ m.sym = s.cfg.sym then some (s.stamp m) else none
  | .shutdown => if s.cfg.enabled ∧ s.windowOpen then some s.lastTim else none
  | _ => none

/-- The segment a message adds. -/
def State.accrued (s : State) (e : Event) : List (Segment ℚ) := (s.accruesAt e).elim [] s.segment

/-- The segments of the current window after a message; an opening starts afresh. -/
def segments (s : State) (e : Event) (g : List (Segment ℚ)) : List (Segment ℚ) :=
  match step s e with
  | some (s', _) => if s'.nWindows = s.nWindows then g ++ s.accrued e else []
  | none => g

/-- The segments of the open window: they run from its start to the last stamp, the integrals are
    theirs, and the extremes bound what they hold. -/
structure Covered (s : State) (g : List (Segment ℚ)) : Prop where
  fireTs_pos : 0 < s.fireTs
  tiles : Tiles s.fireTs s.posLastTim g
  posIntegral : s.posIntegral = integral g
  absIntegral : s.absIntegral = integral (g.map (.map abs))
  position : s.posMin ≤ s.position ∧ s.position ≤ s.posMax
  held : ∀ x ∈ g, (s.posMin : ℚ) ≤ x.value ∧ x.value ≤ s.posMax

/-- The segments of the open window, and no leg ends after the last stamp. -/
structure Inventory (s : State) (g : List (Segment ℚ)) : Prop extends Covered s g where
  started : ∀ side, (s.work side).leg.started = s.fireTs
  ended : ∀ side, (s.work side).leg.ended ≤ s.posLastTim

theorem Covered.posLastTim_ne_zero (h : Covered s g) : s.posLastTim ≠ 0 := by
  have hle := h.tiles.le
  have hpos := h.fireTs_pos
  omega

theorem Covered.segment_eq (h : Covered s g) (hopen : s.windowOpen = true) (t : ℕ) :
    s.segment t = if s.posLastTim < t then [⟨s.posLastTim, t, s.position⟩] else [] := by
  unfold State.segment
  dsimp only
  rw [if_neg h.posLastTim_ne_zero]
  simp only [hopen, true_and]

theorem Covered.accrueInventory_eq (h : Covered s g) (hopen : s.windowOpen = true) (t : ℕ) :
    s.accrueInventory t = s.accrueFrom s.posLastTim t := by
  unfold State.accrueInventory
  rw [if_pos hopen, if_neg h.posLastTim_ne_zero]

theorem accrueFrom_of_lt {last : ℕ} (h : last < t) : s.accrueFrom last t =
    { s with
      posIntegral := s.posIntegral + s.position * ((t - last : ℕ) : ℚ)
      absIntegral := s.absIntegral + |(s.position : ℚ)| * ((t - last : ℕ) : ℚ)
      posLastTim := t } := if_pos h

/-- **Accruing.**  The integrals take in the new segment, and the segments reach the later of the
    last stamp and the new one. -/
theorem Covered.accrue (h : Covered s g) (hopen : s.windowOpen = true) (t : ℕ) :
    Covered (s.accrueInventory t) (g ++ s.segment t) ∧
      (s.accrueInventory t).posLastTim = max s.posLastTim t := by
  rw [h.accrueInventory_eq hopen, h.segment_eq hopen]
  by_cases hlate : s.posLastTim < t
  · rw [if_pos hlate, accrueFrom_of_lt hlate]
    refine ⟨?_, (max_eq_right (Nat.le_of_lt hlate)).symm⟩
    constructor
    case fireTs_pos => exact h.fireTs_pos
    case tiles => exact h.tiles.concat hlate _
    case posIntegral =>
      rw [integral_concat, ← h.posIntegral]
      rfl
    case absIntegral =>
      rw [List.map_append, List.map_singleton, integral_concat, ← h.absIntegral]
      rfl
    case position => exact h.position
    case held =>
      rw [List.forall_mem_append, List.forall_mem_singleton]
      exact ⟨h.held, Int.cast_le.mpr h.position.1, Int.cast_le.mpr h.position.2⟩
  · rw [if_neg hlate, List.append_nil]
    have hkept : s.accrueFrom s.posLastTim t = s := if_neg hlate
    rw [hkept]
    exact ⟨h, (max_eq_left (Nat.not_lt.mp hlate)).symm⟩

/-! ### What steps do to the segments -/

theorem Covered.of_quiet (h : Covered s g) (hquiet : Quiet s s') : Covered s' g := by
  constructor
  case fireTs_pos => rw [hquiet.fireTs]; exact h.fireTs_pos
  case tiles => rw [hquiet.fireTs, hquiet.posLastTim]; exact h.tiles
  case posIntegral => rw [hquiet.posIntegral]; exact h.posIntegral
  case absIntegral => rw [hquiet.absIntegral]; exact h.absIntegral
  case position => rw [hquiet.position, hquiet.posMin, hquiet.posMax]; exact h.position
  case held => rw [hquiet.posMin, hquiet.posMax]; exact h.held

theorem Inventory.of_quiet (h : Inventory s g) (hquiet : Quiet s s') : Inventory s' g where
  toCovered := h.toCovered.of_quiet hquiet
  started side := by rw [hquiet.work, hquiet.fireTs]; exact h.started side
  ended side := by rw [hquiet.work, hquiet.posLastTim]; exact h.ended side

/-- The extremes only widen. -/
theorem Covered.movePosition (h : Covered s g) (d : ℤ) : Covered (s.movePosition d) g := by
  constructor
  case fireTs_pos => exact h.fireTs_pos
  case tiles => exact h.tiles
  case posIntegral => exact h.posIntegral
  case absIntegral => exact h.absIntegral
  case position => exact ⟨min_le_right _ _, le_max_right _ _⟩
  case held =>
    intro x hx
    obtain ⟨hmin, hmax⟩ := h.held x hx
    exact ⟨(Int.cast_le.mpr (min_le_left _ _)).trans hmin,
      hmax.trans (Int.cast_le.mpr (le_max_left _ _))⟩

theorem Covered.setWork (h : Covered s g) (side : Side) (w : Work) :
    Covered (s.setWork side w) g := by
  cases side with
  | buy => exact ⟨h.1, h.2, h.3, h.4, h.5, h.6⟩
  | sel => exact ⟨h.1, h.2, h.3, h.4, h.5, h.6⟩

/-- A state whose sides are those of `s` but for one. -/
theorem Inventory.of_setWork {t : State} (h : Inventory s g) (ht : Covered t g') (side : Side)
    {w : Work} (hwork : t.work side = w ∧ ∀ a, a ≠ side → t.work a = s.work a)
    (hfire : t.fireTs = s.fireTs) (hlast : s.posLastTim ≤ t.posLastTim)
    (hstarted : w.leg.started = s.fireTs) (hended : w.leg.ended ≤ t.posLastTim) :
    Inventory t g' where
  toCovered := ht
  started a := by
    by_cases ha : a = side
    · rw [ha, hwork.1, hfire]
      exact hstarted
    · rw [hwork.2 a ha, hfire]
      exact h.started a
  ended a := by
    by_cases ha : a = side
    · rw [ha, hwork.1]
      exact hended
    · rw [hwork.2 a ha]
      exact (h.ended a).trans hlast

/-- A fill: the segment up to it, then the position and the leg move. -/
theorem Inventory.filled (h : Inventory s g) (hopen : s.windowOpen = true) {m : Fill} {w : Work}
    (hw : (s.lightWork m).takeFill m (s.mark m.side) (s.stamp m) (s.lastBid + s.lastAsk) =
      some w) : Inventory (s.filled m w) (g ++ s.segment (s.stamp m)) := by
  obtain ⟨-, -, -, -, hstarted, -, -, hended⟩ := takeFill_some (stamp_of_tim s m) hw
  obtain ⟨haccrued, hlast⟩ := h.toCovered.accrue hopen (s.stamp m)
  obtain ⟨-, -, -, -, hwork⟩ := filled_frame s m w
  have hfilled : (s.filled m w).posLastTim = max s.posLastTim (s.stamp m) := by
    rw [← hlast]
    unfold State.filled
    cases m.side <;> rfl
  have hfire : (s.filled m w).fireTs = s.fireTs := by
    obtain ⟨pos, abs, last, heq⟩ := accrue_eq s (s.stamp m)
    unfold State.filled State.moved
    rw [heq]
    cases m.side <;> rfl
  have hstart : (s.lightWork m).leg.started = s.fireTs := h.started m.side
  refine h.of_setWork ((haccrued.movePosition _).setWork m.side w) m.side hwork hfire ?_
    (hstarted.trans hstart) ?_
  · rw [hfilled]
    exact le_max_left _ _
  · have hbefore : (s.lightWork m).leg.ended ≤ s.posLastTim := h.ended m.side
    have hle := h.tiles.le
    rw [hstart] at hended
    rw [hfilled]
    omega

/-- An opening has no segments yet. -/
theorem Opens.inventory {t : State} (h : Opens t now s') (hnow : 0 < now) : Inventory s' [] := by
  obtain ⟨buy, sel, hbuy, hsel, rfl⟩ := h.work
  constructor
  case toCovered =>
    exact ⟨hnow, .refl now, rfl, rfl, ⟨le_refl _, le_refl _⟩, fun x hx => nomatch hx⟩
  case started => exact fun | .buy => hbuy.started | .sel => hsel.started
  case ended =>
    have hzero : ∀ w : Work, w.leg.ended = 0 → w.leg.ended ≤ now := fun w hw => by omega
    exact fun | .buy => hzero buy hbuy.ended | .sel => hzero sel hsel.ended

theorem accrued_of_idle (hidle : s.Idle e) : s.accrued e = [] := by
  unfold State.accrued
  cases e with
  | alarm timerId now => rw [show s.accruesAt (.alarm timerId now) = none from if_neg hidle]; rfl
  | fill m =>
      rw [show s.accruesAt (.fill m) = none from if_neg fun h => hidle h.2]
      rfl
  | shutdown =>
      have hnot : ¬ (s.cfg.enabled = true ∧ s.windowOpen = true) := by
        rintro ⟨henabled, hopen⟩
        rcases hidle with h | h
        · exact absurd (henabled.symm.trans h) (by decide)
        · exact absurd (hopen.symm.trans h) (by decide)
      rw [show s.accruesAt .shutdown = none from if_neg hnot]
      rfl
  | eob => rfl
  | trade => rfl

/-- **One step keeps the inventory.** -/
theorem step_inventory (hstep : step s e = some (s', o))
    (h : s.windowOpen = true → Inventory s g) (hopen : s'.windowOpen = true) :
    Inventory s' (segments s e g) := by
  have hsegments : segments s e g =
      if s'.nWindows = s.nWindows then g ++ s.accrued e else [] := by
    unfold segments
    rw [hstep]
  rw [hsegments]
  cases step_effect hstep with
  | quiet hquiet _ hidle =>
      rw [if_pos hquiet.nWindows, accrued_of_idle hidle, List.append_nil]
      exact (h (hquiet.windowOpen.symm.trans hopen)).of_quiet hquiet
  | opens _ hnow hquiet _ _ hopens =>
      have hcount := hopens.nWindows
      rw [hquiet.nWindows] at hcount
      rw [if_neg (by omega)]
      exact hopens.inventory hnow
  | @closes now _ hcloses _ hnext =>
      obtain ⟨-, hshut, hcount, -⟩ := closed_frame s now
      rcases hnext with rfl | hopens
      · exact absurd (hshut.symm.trans hopen) (by decide)
      · have hafter := hopens.nWindows
        rw [hcount] at hafter
        rw [if_neg (by omega)]
        exact hopens.inventory hcloses.2.2.1
  | @fill m w henabled hsym _ hw =>
      obtain ⟨-, hwindow, hcount, -⟩ := filled_frame s m w
      have hwas := hwindow.symm.trans hopen
      rw [if_pos hcount]
      unfold State.accrued
      rw [show s.accruesAt (.fill m) = some (s.stamp m) from if_pos ⟨henabled, hsym⟩]
      exact (h hwas).filled hwas hw
  | @strayFill m hdisabled =>
      have hwindow : (s.setWork m.side (s.lightWork m)).windowOpen = s.windowOpen := by
        cases m.side <;> rfl
      have hcount : (s.setWork m.side (s.lightWork m)).nWindows = s.nWindows := by
        cases m.side <;> rfl
      have hinv := h (hwindow.symm.trans hopen)
      have hnone : s.accrued (.fill m) = [] := by
        unfold State.accrued
        rw [show s.accruesAt (.fill m) = none from if_neg fun he =>
          absurd (he.1.symm.trans hdisabled) (by decide)]
        rfl
      rw [if_pos hcount, hnone, List.append_nil]
      refine hinv.of_setWork (hinv.toCovered.setWork m.side _) m.side
        ⟨work_setWork _ _ _, fun a ha => work_setWork_of_ne s ha _⟩ ?_ ?_ (hinv.started m.side) ?_
      · cases m.side <;> rfl
      · cases m.side <;> exact le_refl _
      · cases m.side <;> exact hinv.ended _
  | cutOff => exact absurd ((stopped_frame s).2.1.symm.trans hopen) (by decide)

/-! ### Rows -/

/-- What a row should say of the segments of its window: they cover the time from its start to its
    close once, and the means lie within the extremes. -/
structure RowSound (s : State) (g : List (Segment ℚ)) (e : Event) (r : Row) : Prop where
  covers : ∃ close, s.accruesAt e = some close ∧ CoversOnce r.fireTs close (g ++ s.accrued e)
  posMean : (r.posMin : ℚ) ≤ r.posMean ∧ r.posMean ≤ r.posMax
  posAbsMean : r.posAbsMean ≤ max |(r.posMin : ℚ)| |(r.posMax : ℚ)|

/-- The window can be cut off at the last tick: no stamp of the window is later, and a window that
    no time has passed in has been at flat. -/
def State.CutInTime (s : State) : Prop :=
  (s.posLastTim ≤ s.lastTim ∨ s.posLastTim = s.fireTs) ∧
    (s.fireTs < s.lastTim ∨ s.posMin ≤ 0 ∧ 0 ≤ s.posMax)

instance (s : State) : Decidable s.CutInTime := inferInstanceAs (Decidable (_ ∧ _))

/-- No stamp of a window that ends is later than the tick its span ends at. -/
def Timely (s : State) : Event → Prop
  | .alarm timerId now => s.Closes timerId now → s.posLastTim ≤ now
  | .shutdown => s.cfg.enabled ∧ s.windowOpen → s.CutInTime
  | _ => True

instance (s : State) : DecidablePred (Timely s)
  | .alarm timerId now => inferInstanceAs (Decidable (s.Closes timerId now → s.posLastTim ≤ now))
  | .shutdown => inferInstanceAs (Decidable (s.cfg.enabled ∧ s.windowOpen → s.CutInTime))
  | .eob .. | .trade _ | .fill _ => inferInstanceAs (Decidable True)

/-- The means of a row whose segments end where its span does. -/
theorem Covered.means (h : Covered s g) (hlt : s.fireTs < s.lastTim)
    (hends : s.posLastTim = s.lastTim) (outcome : Outcome) :
    ((s.posMin : ℚ) ≤ (s.emitRow outcome).posMean ∧ (s.emitRow outcome).posMean ≤ s.posMax) ∧
      (s.emitRow outcome).posAbsMean ≤ max |(s.posMin : ℚ)| |(s.posMax : ℚ)| := by
  have htiles := h.tiles
  rw [hends] at htiles
  have hspan : s.span = ((s.lastTim - s.fireTs : ℕ) : ℚ) := if_pos hlt
  have hpos : 0 < s.span := by
    rw [hspan]
    exact Nat.cast_pos.mpr (Nat.sub_pos_of_lt hlt)
  have hmean : (s.emitRow outcome).posMean = integral g / ((s.lastTim - s.fireTs : ℕ) : ℚ) := by
    rw [← h.posIntegral, ← hspan]
    exact if_pos hpos
  have habs : (s.emitRow outcome).posAbsMean =
      integral (g.map (.map abs)) / ((s.lastTim - s.fireTs : ℕ) : ℚ) := by
    rw [← h.absIntegral, ← hspan]
    exact if_pos hpos
  rw [hmean, habs]
  have hmagnitude : ∀ x ∈ g.map (Segment.map abs),
      0 ≤ x.value ∧ x.value ≤ max |(s.posMin : ℚ)| |(s.posMax : ℚ)| := by
    intro x hx
    obtain ⟨y, hy, rfl⟩ := List.mem_map.mp hx
    obtain ⟨hmin, hmax⟩ := h.held y hy
    exact ⟨abs_nonneg _, abs_le_max_abs_abs hmin hmax⟩
  exact ⟨htiles.mean_mem hlt h.held, ((htiles.map abs).mean_mem hlt hmagnitude).2⟩

/-- A row emitted after the last segment has been accrued to the tick its span ends at. -/
theorem Covered.row (h : Covered s g) (hopen : s.windowOpen = true)
    (hle : s.posLastTim ≤ s.lastTim) (hlt : s.fireTs < s.lastTim) (mid : ℤ) (outcome : Outcome)
    {r : Row}
    (hr : r = State.emitRow { s.accrueInventory s.lastTim with midClose := mid } outcome) :
    CoversOnce r.fireTs s.lastTim (g ++ s.segment s.lastTim) ∧
      ((r.posMin : ℚ) ≤ r.posMean ∧ r.posMean ≤ r.posMax) ∧
      r.posAbsMean ≤ max |(r.posMin : ℚ)| |(r.posMax : ℚ)| := by
  obtain ⟨haccrued, hends⟩ := h.accrue hopen s.lastTim
  obtain ⟨pos, abs, last, heq⟩ := accrue_eq s s.lastTim
  rw [max_eq_right hle] at hends
  rw [heq] at haccrued hends hr
  have hcovered : Covered
      { s with
        posIntegral := pos
        absIntegral := abs
        posLastTim := last
        midClose := mid } (g ++ s.segment s.lastTim) :=
    ⟨haccrued.1, haccrued.2, haccrued.3, haccrued.4, haccrued.5, haccrued.6⟩
  have htiles : Tiles s.fireTs last (g ++ s.segment s.lastTim) := haccrued.tiles
  rw [show last = s.lastTim from hends] at htiles
  obtain ⟨hmean, habs⟩ := hcovered.means hlt hends outcome
  subst hr
  exact ⟨htiles.coversOnce, hmean, habs⟩

/-- The row of a window that closes at a tick no earlier than its stamps. -/
theorem closes_sound (h : Inventory s g) (hcloses : s.Closes probeTick now)
    (hcan : (s.clocked now).CanClose (s.closeTime now)) (htimely : s.posLastTim ≤ now) :
    RowSound s g (.alarm probeTick now) (((s.clocked now).atClose now).emitRow .ok) := by
  have hopen : s.windowOpen = true := hcloses.2.2.2.2.2.1
  -- the legs ended by the last stamp, so the window closes at the tick
  have hclose : s.closeTime now = now := by
    have hbuy : s.buy.leg.ended ≤ s.posLastTim := h.ended .buy
    have hsel : s.sel.leg.ended ≤ s.posLastTim := h.ended .sel
    unfold State.closeTime
    omega
  rw [hclose] at hcan
  have haccrues : s.accruesAt (.alarm probeTick now) = some now :=
    (if_pos hcloses).trans (congrArg some hclose)
  have hclocked : Covered (s.clocked now) g := h.toCovered.of_quiet ⟨rfl, fun _ => rfl, id, id⟩
  have hrow : ((s.clocked now).atClose now).emitRow .ok =
      State.emitRow { (s.clocked now).accrueInventory now with
        midClose := s.lastBid + s.lastAsk } .ok := by
    unfold State.atClose
    rw [show (s.clocked now).closeTime now = now from hclose]
    rfl
  obtain ⟨hcovers, hmean, habs⟩ := hclocked.row hopen htimely hcan.2.2.2.1 _ .ok hrow
  refine ⟨⟨now, haccrues, ?_⟩, hmean, habs⟩
  unfold State.accrued
  rw [haccrues]
  exact hcovers

theorem means_of_span_zero (h : s.span = 0) (outcome : Outcome) :
    (s.emitRow outcome).posMean = 0 ∧ (s.emitRow outcome).posAbsMean = 0 := by
  have hnot : ¬ 0 < s.span := by rw [h]; exact lt_irrefl 0
  exact ⟨if_neg hnot, if_neg hnot⟩

theorem atCutOff_span (s : State) (hnot : ¬ s.fireTs < s.lastTim) : s.atCutOff.span = 0 ∧
    s.atCutOff.fireTs = s.fireTs ∧ s.atCutOff.posMin = s.posMin ∧
    s.atCutOff.posMax = s.posMax := by
  obtain ⟨pos, abs, last, heq⟩ := accrue_eq
    { s with buy := s.buy.cutOff s.lastTim, sel := s.sel.cutOff s.lastTim } s.lastTim
  unfold State.atCutOff
  rw [heq]
  exact ⟨if_neg hnot, rfl, rfl, rfl⟩

/-- The row of a window cut off in time. -/
theorem cutOff_sound (h : Inventory s g) (henabled : s.cfg.enabled = true)
    (hopen : s.windowOpen = true) (htime : s.CutInTime) (outcome : Outcome) :
    RowSound s g .shutdown (s.atCutOff.emitRow outcome) := by
  have haccrues : s.accruesAt .shutdown = some s.lastTim := if_pos ⟨henabled, hopen⟩
  have haccrued : s.accrued .shutdown = s.segment s.lastTim := by
    unfold State.accrued
    rw [haccrues]
    rfl
  have hle := h.tiles.le
  obtain ⟨hstamps, hflat⟩ := htime
  by_cases hlt : s.fireTs < s.lastTim
  · have hcut : Covered { s with buy := s.buy.cutOff s.lastTim, sel := s.sel.cutOff s.lastTim } g :=
      ⟨h.1.1, h.1.2, h.1.3, h.1.4, h.1.5, h.1.6⟩
    have hrow : s.atCutOff.emitRow outcome = State.emitRow { State.accrueInventory
        { s with buy := s.buy.cutOff s.lastTim, sel := s.sel.cutOff s.lastTim } s.lastTim with
          midClose := s.lastBid + s.lastAsk } outcome := rfl
    have htimely : s.posLastTim ≤ s.lastTim := by omega
    obtain ⟨hcovers, hmean, habs⟩ := hcut.row hopen htimely hlt _ outcome hrow
    refine ⟨⟨s.lastTim, haccrues, ?_⟩, hmean, habs⟩
    rw [haccrued]
    exact hcovers
  · -- no time has passed: there is no segment, and the means are zero
    have hstart : s.posLastTim = s.fireTs := by omega
    have htiles := h.tiles
    rw [hstart] at htiles
    have hnone : g ++ s.segment s.lastTim = [] := by
      rw [htiles.eq_nil, h.toCovered.segment_eq hopen, hstart, if_neg hlt]
      rfl
    obtain ⟨hmin, hmax⟩ := hflat.resolve_left hlt
    obtain ⟨hspan, hextremes⟩ := atCutOff_span s hlt
    obtain ⟨hmean, habs⟩ := means_of_span_zero hspan outcome
    constructor
    case covers =>
      refine ⟨s.lastTim, haccrues, ?_⟩
      rw [haccrued, hnone]
      exact coversOnce_nil (Nat.not_lt.mp (by
        rw [show (s.atCutOff.emitRow outcome).fireTs = s.fireTs from hextremes.1]
        exact hlt))
    case posMean =>
      rw [hmean, show (s.atCutOff.emitRow outcome).posMin = s.posMin from hextremes.2.1,
        show (s.atCutOff.emitRow outcome).posMax = s.posMax from hextremes.2.2]
      exact ⟨by exact_mod_cast hmin, by exact_mod_cast hmax⟩
    case posAbsMean =>
      rw [habs]
      exact le_max_of_le_left (abs_nonneg _)

/-- **One row.** -/
theorem row_sound {r : Row} (hinv : s.windowOpen = true → Inventory s g)
    (heff : Effect s e s' o) (htimely : Timely s e) (hrow : .row r ∈ o) : RowSound s g e r := by
  cases heff with
  | quiet _ hnone => exact absurd hrow (hnone r)
  | opens => cases hrow
  | closes hcloses hcan =>
      rw [List.mem_singleton] at hrow
      cases hrow
      exact closes_sound (hinv hcloses.2.2.2.2.2.1) hcloses hcan (htimely hcloses)
  | fill => cases hrow
  | strayFill => cases hrow
  | cutOff henabled hopen hrows =>
      rw [(hrows r).mp hrow]
      exact cutOff_sound (hinv hopen) henabled hopen (htimely ⟨henabled, hopen⟩) _

/-! ### Whole runs -/

/-- Every row of a run is right about the segments of its window. -/
def RowsSound (c : Config) (es : List Event) : Prop :=
  ∀ past e rest s g out s' o r, es = past ++ e :: rest →
    run (withGhost step segments) (init c, []) past = some ((s, g), out) →
    step s e = some (s', o) → .row r ∈ o → RowSound s g e r

/-- **Time-weighted inventory.**  In a run whose windows close at ticks no earlier than the stamps
    seen in them, the segments of every row cover the time from the start of the window to its
    close once, and the means lie within the extremes. -/
theorem rows_sound_of_timely (c : Config) (es : List Event)
    (htimely : AllSteps (withGhost step segments) (fun sg e => Timely sg.1 e) (init c, []) es) :
    RowsSound c es := by
  intro past e rest s g out s' o r hsplit hrun hstep hrow
  have hinv : s.windowOpen = true → Inventory s g := by
    refine run_invariant (I := fun _ _ sg => sg.1.windowOpen = true → Inventory sg.1 sg.2)
      (fun hopen => absurd hopen Bool.false_ne_true) ?_ hrun
    intro _ _ ⟨s, g⟩ e ⟨s', g'⟩ o hinv hstep hopen
    obtain ⟨hs, rfl⟩ := withGhost_eq_some.mp hstep
    exact step_inventory hs hinv hopen
  rw [hsplit, allSteps_append] at htimely
  have hhere := (allSteps_cons.mp (htimely.2 (s, g) out hrun)).1
  exact row_sound hinv (step_effect hstep) hhere hrow

/-- Two lots a side. -/
def twoLots : Config :=
  { sym := 1, parentSz := 2, sessionStart := 50, sessionEnd := 5000, minWindowNs := 10 }

/-- A window from 100 in which both sides fill, the sell side with the given stamp. -/
def bothFill (sellTim : ℕ) : List Event :=
  [.eob 1 10 12, .alarm probeTick 100, .fill ⟨1, .buy, 2, 11, 101⟩,
    .fill ⟨1, .sel, 2, 11, sellTim⟩]

/-- The window closes at the tick at 150, after its stamps. -/
theorem rows_sound_bothFill : RowsSound twoLots (bothFill 120 ++ [.alarm probeTick 150]) :=
  rows_sound_of_timely twoLots (bothFill 120 ++ [.alarm probeTick 150]) (by decide +kernel)

/-- A row with a mean above the window's largest position. -/
def Out.aboveMax : Out → Bool
  | .row r => (r.posMax : ℚ) < r.posMean
  | _ => false

/-- The sell side's fill is stamped 1000 and the window closes at the tick at 150: the position of
    two lots until 1000 is divided by the fifty to the tick. -/
theorem mean_past_extremes : ¬ RowsSound twoLots (bothFill 1000 ++ [.alarm probeTick 150]) := by
  intro hsound
  have heval : ((run (withGhost step segments) (init twoLots, []) (bothFill 1000)).bind fun r =>
      (step r.1.1 (.alarm probeTick 150)).map fun r' => r'.2.any Out.aboveMax) = some true := by
    decide +kernel
  simp only [Option.bind_eq_some_iff, Option.map_eq_some_iff, List.any_eq_true] at heval
  obtain ⟨⟨⟨s, g⟩, out⟩, hrun, ⟨s', o⟩, hstep, out', hmem, hlt⟩ := heval
  cases out' with
  | row r =>
      have hrow :=
        hsound (bothFill 1000) (.alarm probeTick 150) [] s g out s' o r rfl hrun hstep hmem
      exact absurd hrow.posMean.2 (not_le.mpr (of_decide_eq_true hlt))
  | stalled => cases hlt
  | summary => cases hlt

end KasparHft.Probe
