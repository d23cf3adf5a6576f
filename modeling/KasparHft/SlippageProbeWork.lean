import KasparHft.SlippageProbeSteps
import Mathlib.Tactic.LinearCombination

/-!
# The work of the probe's two sides

A side's book is as far from flat as the side was given more than it has filled, at all
times.  So the work a leg is told at the opening of a window is the distance of its book from
flat, and the leg is done exactly when the book has been at flat or past it since then, whatever
earlier windows left on the book.
-/

namespace KasparHft.Probe

open Machine
open Light22 (addPosition)
open Som (toInt)

variable {c : Config} {s s' s₀ s₁ : State} {e : Event} {o os out : List Out} {now : ℕ}
  {side : Side} {past later : List Event}

/-! ### What was filled -/

/-- A fill of a whole number of lots. -/
def Event.Whole : Event → Prop
  | .fill m => m.sz.den = 1
  | _ => True

instance : DecidablePred Event.Whole
  | .fill m => inferInstanceAs (Decidable (m.sz.den = 1))
  | .alarm .. | .eob .. | .trade _ | .shutdown => inferInstanceAs (Decidable True)

/-- What a message fills of an instrument on a side. -/
def Event.qty (sym : ℕ) (side : Side) : Event → ℚ
  | .fill m => if m.sym = sym ∧ m.side = side then m.sz else 0
  | _ => 0

/-- All that was ever filled on a side. -/
def filledQty (sym : ℕ) (side : Side) (es : List Event) : ℚ := (es.map (Event.qty sym side)).sum

theorem filledQty_concat (sym : ℕ) (side : Side) (es : List Event) (e : Event) :
    filledQty sym side (es ++ [e]) = filledQty sym side es + e.qty sym side := by
  simp only [filledQty, List.map_append, List.sum_append, List.map_cons, List.map_nil,
    List.sum_cons, List.sum_nil, add_zero]

theorem qty_of_idle (hidle : s.Idle e) : e.qty s.cfg.sym side = 0 := by
  cases e with
  | fill m => exact if_neg fun h => hidle h.1
  | _ => rfl

theorem qty_own_side {m : Fill} {sym : ℕ} (hsym : m.sym = sym) :
    Event.qty sym m.side (.fill m) = m.sz := if_pos ⟨hsym, rfl⟩

theorem qty_other_side {m : Fill} {sym : ℕ} (hside : side ≠ m.side) :
    Event.qty sym side (.fill m) = 0 := if_neg fun h => hside h.2.symm

theorem toInt_intCast (n : ℤ) : toInt n = n := by
  simp [toInt]

theorem toInt_whole {q : ℚ} (h : q.den = 1) : (toInt q : ℚ) = q := by
  obtain ⟨n, rfl⟩ : ∃ n : ℤ, q = n := ⟨q.num, (Rat.den_eq_one_iff q).mp h |>.symm⟩
  rw [toInt_intCast]

/-! ### One side -/

/-- The distance of the book from flat is what was given and is not filled. -/
def Work.Balanced (w : Work) (side : Side) : Prop :=
  (w.toFlat side : ℚ) = w.workGiven - w.filledTotal

theorem Work.Opens.balanced {w w' : Work} {sz : ℤ} (h : w.Opens side sz now w')
    (hw : w.Balanced side) : w'.Balanced side := by
  obtain ⟨k, hflat, hgiven⟩ := h.given
  unfold Work.Balanced at hw ⊢
  rw [hflat, hgiven, h.filledTotal, Int.cast_add, Int.cast_add, hw]
  ring

/-- A leg is told the distance of its book from flat. -/
theorem Work.Opens.toDo_eq {w w' : Work} {sz : ℤ} (h : w.Opens side sz now w')
    (hw : w.Balanced side) : w'.leg.toDo = w'.toFlat side := by
  rw [h.toDo, ← h.balanced hw, toInt_intCast]

theorem Leg.mark_some {l l' : Leg} {mk : Mark} (h : l.mark mk = some l') :
    l'.filled = l.filled ∧ l'.toDo = l.toDo ∧ l'.done = l.done ∧ l'.started = l.started ∧
      l'.ended = l.ended := by
  unfold Leg.mark at h
  split at h
  · cases h
  · cases h
    exact ⟨rfl, rfl, rfl, rfl, rfl⟩

/-- A fill the leg takes: it is done with it exactly when it has filled its work. -/
theorem Leg.takeFill_some {l l' : Leg} {m : Fill} {mk : Mark} {stamp : ℕ} {mid : ℤ}
    (hstamp : m.tim ≠ 0 → stamp = m.tim) (h : l.takeFill m mk stamp mid = some l') :
    l'.filled = l.filled + m.sz ∧ l'.toDo = l.toDo ∧ l'.started = l.started ∧
      (l'.done = true ↔ l.done = true ∨ (l.toDo : ℚ) ≤ l.filled + m.sz) ∧
      l'.ended ≤ max l.ended (max stamp l.started) := by
  unfold Leg.takeFill at h
  dsimp only at h
  rw [Option.map_eq_some_iff] at h
  obtain ⟨l₁, hmark, hl'⟩ := h
  obtain ⟨hfilled, htoDo, hdone, hstarted, hended⟩ := Leg.mark_some hmark
  dsimp only at hfilled htoDo hdone hstarted hended
  by_cases hfull : (l₁.toDo : ℚ) ≤ l₁.filled
  · rw [if_pos hfull] at hl'
    have hreached : (l.toDo : ℚ) ≤ l.filled + m.sz := by rwa [htoDo, hfilled] at hfull
    split at hl'
    next hlate =>
      cases hl'
      refine ⟨hfilled, htoDo, hstarted, iff_of_true rfl (.inr hreached), ?_⟩
      rw [hstarted, hstamp hlate.1]
      exact le_max_right _ _
    next =>
      cases hl'
      refine ⟨hfilled, htoDo, hstarted, iff_of_true rfl (.inr hreached), ?_⟩
      rw [hstarted]
      exact le_max_right _ _
  · rw [if_neg hfull] at hl'
    have hshort : ¬ (l.toDo : ℚ) ≤ l.filled + m.sz := by rwa [htoDo, hfilled] at hfull
    have hkept : l₁.done = true ↔ l.done = true ∨ (l.toDo : ℚ) ≤ l.filled + m.sz := by
      rw [hdone, or_iff_left hshort]
    split at hl'
    next hlate =>
      cases hl'
      refine ⟨hfilled, htoDo, hstarted, hkept, ?_⟩
      rw [hstarted, hstamp hlate.1]
      exact le_max_right _ _
    next =>
      cases hl'
      refine ⟨hfilled, htoDo, hstarted, hkept, ?_⟩
      rw [hended]
      exact le_max_left _ _

/-- A whole fill brings the book of its side closer to flat by its size. -/
theorem toFlat_lightWork {m : Fill} (hsz : 0 < m.sz) (hwhole : m.sz.den = 1) :
    (((s.lightWork m).toFlat m.side : ℤ) : ℚ) = (s.work m.side).toFlat m.side - m.sz := by
  have hint := toInt_whole hwhole
  have hone : ¬ toInt m.sz < 1 := by
    have hpos : (0 : ℚ) < (toInt m.sz : ℚ) := by rwa [hint]
    have : 0 < toInt m.sz := by exact_mod_cast hpos
    omega
  have hflat : (s.lightWork m).toFlat m.side = (s.work m.side).toFlat m.side - toInt m.sz := by
    unfold Work.toFlat State.lightWork addPosition
    rw [if_neg hone]
    have hsign : m.side.sign * m.side.sign = 1 := by cases m.side <;> rfl
    linear_combination -toInt m.sz * hsign
  rw [hflat, Int.cast_sub, hint]

/-- What a fill does to its side: the total counts it, the leg takes it unless it is done. -/
theorem takeFill_some {w w' : Work} {m : Fill} {mk : Mark} {stamp : ℕ} {mid : ℤ}
    (hstamp : m.tim ≠ 0 → stamp = m.tim) (h : w.takeFill m mk stamp mid = some w') :
    w'.pcoord = w.pcoord ∧ w'.workGiven = w.workGiven ∧ w'.filledTotal = w.filledTotal + m.sz ∧
      w'.leg.toDo = w.leg.toDo ∧ w'.leg.started = w.leg.started ∧
      (w'.leg.done = true ↔ w.leg.done = true ∨ (w.leg.toDo : ℚ) ≤ w.leg.filled + m.sz) ∧
      (w'.leg.done = false → w'.leg.filled = w.leg.filled + m.sz) ∧
      w'.leg.ended ≤ max w.leg.ended (max stamp w.leg.started) := by
  unfold Work.takeFill at h
  dsimp only at h
  split at h
  next hdone =>
    cases h
    refine ⟨rfl, rfl, rfl, rfl, rfl, iff_of_true hdone (.inl hdone), fun hnot => ?_,
      le_max_left _ _⟩
    exact absurd (hdone.symm.trans hnot) (by decide)
  next =>
    obtain ⟨leg, hleg, rfl⟩ := Option.map_eq_some_iff.mp h
    obtain ⟨hfilled, htoDo, hstarted, hdone, hended⟩ := Leg.takeFill_some hstamp hleg
    exact ⟨rfl, rfl, rfl, htoDo, hstarted, hdone, fun _ => hfilled, hended⟩

/-- The side of a fill stays balanced: what the fill adds to its total it takes off the way to
    flat. -/
theorem takeFill_balanced {m : Fill} {w : Work} (hsz : 0 < m.sz) (hwhole : m.sz.den = 1)
    (hw : (s.lightWork m).takeFill m (s.mark m.side) (s.stamp m) (s.lastBid + s.lastAsk) = some w)
    (h : (s.work m.side).Balanced m.side) : w.Balanced m.side := by
  obtain ⟨hpcoord, hgiven, htotal, -⟩ := takeFill_some (stamp_of_tim s m) hw
  have hflat : w.toFlat m.side = (s.lightWork m).toFlat m.side := by
    unfold Work.toFlat
    rw [hpcoord]
  unfold Work.Balanced at h ⊢
  rw [hflat, toFlat_lightWork hsz hwhole, h, hgiven, htotal]
  exact sub_sub _ _ _

/-! ### Any time -/

/-- What ties the probe to the books and to the fills so far. -/
structure Accounts (c : Config) (es : List Event) (s : State) : Prop where
  sym : s.cfg.sym = c.sym
  enabled : s.windowOpen = true → s.cfg.enabled = true
  touch : s.windowOpen = true → 0 < s.lastBid ∧ 0 < s.lastAsk
  balanced : s.cfg.enabled = true → ∀ side, (s.work side).Balanced side
  total : s.cfg.enabled = true → ∀ side,
    (s.work side).filledTotal = filledQty c.sym side es

/-- The book and the totals of a side. -/
structure SameBook (w w' : Work) : Prop where
  pcoord : w'.pcoord = w.pcoord
  workGiven : w'.workGiven = w.workGiven
  filledTotal : w'.filledTotal = w.filledTotal

theorem SameBook.balanced {w w' : Work} (h : SameBook w w') (hw : w.Balanced side) :
    w'.Balanced side := by
  unfold Work.Balanced Work.toFlat at hw ⊢
  rw [h.pcoord, h.workGiven, h.filledTotal]
  exact hw

/-- A step that keeps the books and fills nothing keeps the accounts. -/
theorem Accounts.of_same (h : Accounts c past s) (hsym : s'.cfg.sym = s.cfg.sym)
    (hcfg : s'.cfg.enabled = true → s.cfg.enabled = true)
    (hopen : s'.windowOpen = true → s'.cfg.enabled = true ∧ 0 < s'.lastBid ∧ 0 < s'.lastAsk)
    (hbook : ∀ side, SameBook (s.work side) (s'.work side))
    (hqty : ∀ side, e.qty c.sym side = 0) : Accounts c (past ++ [e]) s' where
  sym := hsym.trans h.sym
  enabled ho := (hopen ho).1
  touch ho := (hopen ho).2
  balanced he side := (hbook side).balanced (h.balanced (hcfg he) side)
  total he side := by
    rw [(hbook side).filledTotal, h.total (hcfg he) side, filledQty_concat, hqty, add_zero]

/-- An opening keeps the accounts. -/
theorem Accounts.opens {s₁ : State} (h : Accounts c past s₁) (henabled : s₁.cfg.enabled = true)
    (hopens : Opens s₁ now s') : Accounts c past s' := by
  obtain ⟨buy, sel, hbuy, hsel, rfl⟩ := hopens.work
  constructor
  case sym => exact h.sym
  case enabled => exact fun _ => henabled
  case touch => exact fun _ => hopens.touch
  case balanced =>
    intro _ side
    cases side with
    | buy => exact hbuy.balanced (h.balanced henabled .buy)
    | sel => exact hsel.balanced (h.balanced henabled .sel)
  case total =>
    intro _ side
    cases side with
    | buy => exact hbuy.filledTotal.trans (h.total henabled .buy)
    | sel => exact hsel.filledTotal.trans (h.total henabled .sel)

theorem sameBook_cutOff (w : Work) (t : ℕ) : SameBook w (w.cutOff t) := by
  unfold Work.cutOff
  split <;> exact ⟨rfl, rfl, rfl⟩

/-- **One step keeps the accounts.** -/
theorem step_accounts (h : Accounts c past s) (hwhole : e.Whole) (heff : Effect s e s' o) :
    Accounts c (past ++ [e]) s' := by
  cases heff with
  | quiet hquiet hrow hidle =>
      refine h.of_same hquiet.sym hquiet.enabled ?_ (fun side => ?_) fun side => ?_
      · intro ho
        have hopen : s.windowOpen = true := hquiet.windowOpen.symm.trans ho
        rw [hquiet.cfg hopen]
        exact ⟨h.enabled hopen, hquiet.touch (h.touch hopen)⟩
      · rw [hquiet.work]
        exact ⟨rfl, rfl, rfl⟩
      · rw [← h.sym]
        exact qty_of_idle hidle
  | @opens now s₁ _ henabled _ hquiet hclosed hsession hopens =>
      have hstill : s₁.windowOpen = false := hquiet.windowOpen.trans hclosed
      have h₁ : Accounts c (past ++ [.alarm probeTick now]) s₁ := by
        refine h.of_same hquiet.sym hquiet.enabled ?_ (fun side => ?_) fun _ => rfl
        · intro ho
          exact absurd (hstill.symm.trans ho) (by decide)
        · rw [hquiet.work]
          exact ⟨rfl, rfl, rfl⟩
      exact h₁.opens (by simp [Config.enabled, hopens.parentSz, hsession]) hopens
  | @closes now _ hcloses hcan hnext =>
      obtain ⟨hcfg, hshut, -, hwork⟩ := closed_frame s now
      have h₂ : Accounts c (past ++ [.alarm probeTick now]) ((s.clocked now).closed now) := by
        refine h.of_same (by rw [hcfg]) (by rw [hcfg]; exact id) ?_ (fun side => ?_) fun _ => rfl
        · intro ho
          exact absurd (hshut.symm.trans ho) (by decide)
        · rw [hwork]
          exact ⟨rfl, rfl, rfl⟩
      rcases hnext with rfl | hopens
      · exact h₂
      · exact h₂.opens (by rw [hcfg]; exact hcloses.1) hopens
  | @fill m w henabled hsym hsz hw =>
      obtain ⟨-, -, htotal, -⟩ := takeFill_some (stamp_of_tim s m) hw
      obtain ⟨hcfg, hopen, -, htouch, hwork⟩ := filled_frame s m w
      constructor
      case sym => rw [hcfg]; exact h.sym
      case enabled => rw [hcfg, hopen]; exact h.enabled
      case touch => rw [hopen, htouch.1, htouch.2]; exact h.touch
      case balanced =>
        intro _ side
        by_cases hside : side = m.side
        · subst hside
          rw [hwork.1]
          exact takeFill_balanced hsz hwhole hw (h.balanced henabled m.side)
        · rw [hwork.2 side hside]
          exact h.balanced henabled side
      case total =>
        intro _ side
        rw [filledQty_concat]
        by_cases hside : side = m.side
        · subst hside
          rw [hwork.1, htotal, qty_own_side (hsym.trans h.sym), ← h.total henabled m.side]
          rfl
        · rw [hwork.2 side hside, qty_other_side hside, add_zero]
          exact h.total henabled side
  | @strayFill m hdisabled =>
      -- a disabled probe has no window open and keeps no accounts
      have hcfg : (s.setWork m.side (s.lightWork m)).cfg = s.cfg := by cases m.side <;> rfl
      have hopen : (s.setWork m.side (s.lightWork m)).windowOpen = s.windowOpen := by
        cases m.side <;> rfl
      have hshut : s.windowOpen ≠ true := fun ho =>
        absurd ((h.enabled ho).symm.trans hdisabled) (by decide)
      have hnot : (s.setWork m.side (s.lightWork m)).cfg.enabled ≠ true := by
        rw [hcfg, hdisabled]
        decide
      constructor
      case sym => rw [hcfg]; exact h.sym
      case enabled => rw [hopen]; exact fun ho => absurd ho hshut
      case touch => rw [hopen]; exact fun ho => absurd ho hshut
      case balanced => exact fun he => absurd he hnot
      case total => exact fun he => absurd he hnot
  | @cutOff _ henabled hopen hrow =>
      obtain ⟨hcfg, hshut, -, hwork⟩ := stopped_frame s
      refine h.of_same (by rw [hcfg]) (fun _ => henabled) ?_ (fun side => ?_) fun _ => rfl
      · intro ho
        exact absurd (hshut.symm.trans ho) (by decide)
      · rw [hwork]
        exact sameBook_cutOff _ _

theorem accounts_init (c : Config) : Accounts c [] (init c) where
  sym := rfl
  enabled := nofun
  touch := nofun
  balanced _ side := by cases side <;> simp [Work.Balanced, Work.toFlat, init, State.work]
  total _ side := by cases side <;> rfl

/-! ### The opening of a window -/

/-- A leg as a window opens: work to do, as much as the book is from flat, and none of it done. -/
structure Work.Fresh (w : Work) (side : Side) : Prop where
  toDo_pos : 0 < w.leg.toDo
  toDo : w.leg.toDo = w.toFlat side
  filled : w.leg.filled = 0
  notDone : w.leg.done = false

theorem Opens.fresh {t : State} (h : Opens t now s')
    (hbalanced : ∀ side, (t.work side).Balanced side) :
    s'.windowOpen = true ∧ ∀ side, (s'.work side).Fresh side := by
  obtain ⟨buy, sel, hbuy, hsel, rfl⟩ := h.work
  refine ⟨rfl, fun side => ?_⟩
  cases side with
  | buy => exact ⟨hbuy.toDo_pos, hbuy.toDo_eq (hbalanced .buy), hbuy.filled, hbuy.notDone⟩
  | sel => exact ⟨hsel.toDo_pos, hsel.toDo_eq (hbalanced .sel), hsel.filled, hsel.notDone⟩

theorem Opens.nWindows {t : State} (h : Opens t now s') : s'.nWindows = t.nWindows + 1 := by
  obtain ⟨buy, sel, -, -, rfl⟩ := h.work
  rfl

/-- A step that counts a window opens it, and both legs are fresh. -/
theorem fresh_of_opens (h : Accounts c past s) (heff : Effect s e s' o)
    (hopens : s'.nWindows = s.nWindows + 1) :
    s'.windowOpen = true ∧ ∀ side, (s'.work side).Fresh side := by
  cases heff with
  | quiet hquiet =>
      have hsame := hquiet.nWindows
      omega
  | @opens now s₁ _ henabled _ hquiet hclosed hsession hopens =>
      refine hopens.fresh fun side => ?_
      rw [hquiet.work]
      exact h.balanced henabled side
  | @closes now _ hcloses hcan hnext =>
      obtain ⟨-, -, hcount, hwork⟩ := closed_frame s now
      rcases hnext with rfl | hreopens
      · omega
      · refine hreopens.fresh fun side => ?_
        rw [hwork]
        exact h.balanced hcloses.1 side
  | @fill m w =>
      have hsame := (filled_frame s m w).2.2.1
      omega
  | @strayFill m =>
      have hsame : (s.setWork m.side (s.lightWork m)).nWindows = s.nWindows := by
        cases m.side <;> rfl
      omega
  | cutOff =>
      have hsame := (stopped_frame s).2.2.1
      omega

/-- Windows are only counted up. -/
theorem nWindows_le (heff : Effect s e s' o) : s.nWindows ≤ s'.nWindows := by
  cases heff with
  | quiet hquiet => exact Nat.le_of_eq hquiet.nWindows.symm
  | opens _ _ hquiet _ _ hopens =>
      rw [hopens.nWindows, hquiet.nWindows]
      exact Nat.le_succ _
  | @closes now _ _ _ hnext =>
      have hcount := (closed_frame s now).2.2.1
      rcases hnext with rfl | hopens
      · exact Nat.le_of_eq hcount.symm
      · rw [hopens.nWindows, hcount]
        exact Nat.le_succ _
  | @fill m w => exact Nat.le_of_eq (filled_frame s m w).2.2.1.symm
  | @strayFill m => exact Nat.le_of_eq (by cases m.side <;> rfl)
  | cutOff => exact Nat.le_of_eq (stopped_frame s).2.2.1.symm

/-! ### In a window -/

/-- The book of a side is at flat or past it. -/
def State.AtFlat (s : State) (side : Side) : Prop := (s.work side).toFlat side ≤ 0

instance (s : State) (side : Side) : Decidable (s.AtFlat side) :=
  inferInstanceAs (Decidable (_ ≤ _))

/-- The book of a side has been at flat or past it after some of the messages since `s₁`. -/
def Reached (s₁ : State) (side : Side) (later : List Event) : Prop :=
  ∃ some_of rest t out, later = some_of ++ rest ∧ run step s₁ some_of = some (t, out) ∧
    t.AtFlat side

theorem reached_concat (hrun : run step s₁ later = some (s, os)) (hstep : step s e = some (s', o)) :
    Reached s₁ side (later ++ [e]) ↔ Reached s₁ side later ∨ s'.AtFlat side := by
  constructor
  · rintro ⟨es, rest, t, out, hsplit, hes, hflat⟩
    rcases List.eq_nil_or_concat rest with rfl | ⟨rest, f, rfl⟩
    · rw [List.append_nil] at hsplit
      subst hsplit
      have hall := run_concat.mpr ⟨s, os, o, hrun, hstep, rfl⟩
      cases hes.symm.trans hall
      exact .inr hflat
    · rw [List.concat_eq_append, ← List.append_assoc] at hsplit
      obtain ⟨rfl, -⟩ := List.append_inj' hsplit rfl
      exact .inl ⟨es, rest, t, out, rfl, hes, hflat⟩
  · rintro (⟨es, rest, t, out, rfl, hes, hflat⟩ | hflat)
    · exact ⟨es, rest ++ [e], t, out, List.append_assoc _ _ _, hes, hflat⟩
    · exact ⟨later ++ [e], [], s', os ++ o, (List.append_nil _).symm,
        run_concat.mpr ⟨s, os, o, hrun, hstep, rfl⟩, hflat⟩

/-- A leg in its window: done exactly when the book has reached flat, and until then short of its
    work by what the book is from flat. -/
structure Work.Tracks (w : Work) (side : Side) (reached : Prop) : Prop where
  done : w.leg.done = true ↔ reached
  left : w.leg.done = false → (w.toFlat side : ℚ) = w.leg.toDo - w.leg.filled
  flat : w.toFlat side ≤ 0 → reached

theorem Work.Fresh.tracks {w : Work} (h : w.Fresh side) {reached : Prop} (hnot : ¬ reached) :
    w.Tracks side reached where
  done := iff_of_false (by rw [h.notDone]; decide) hnot
  left _ := by rw [h.toDo, h.filled, sub_zero]
  flat hflat := by
    have hpos := h.toDo_pos
    rw [h.toDo] at hpos
    omega

theorem Work.Tracks.of_same {w : Work} {reached : Prop} (h : w.Tracks side reached) :
    w.Tracks side (reached ∨ w.toFlat side ≤ 0) where
  done := h.done.trans (or_iff_left_of_imp h.flat).symm
  left := h.left
  flat := .inr

/-- A fill of the side: the book and the leg come closer to flat and to done together. -/
theorem Work.Tracks.of_fill {w w₁ w' : Work} {m : Fill} {mk : Mark} {stamp : ℕ} {mid : ℤ}
    {reached : Prop} (h : w.Tracks side reached) (hleg : w₁.leg = w.leg)
    (hflat : (w₁.toFlat side : ℚ) = w.toFlat side - m.sz) (hstamp : m.tim ≠ 0 → stamp = m.tim)
    (hw : w₁.takeFill m mk stamp mid = some w') :
    w'.Tracks side (reached ∨ w'.toFlat side ≤ 0) := by
  obtain ⟨hpcoord, -, -, htoDo, -, hdone, hfilled, -⟩ := takeFill_some hstamp hw
  rw [hleg] at htoDo hdone hfilled
  have hflat' : (w'.toFlat side : ℚ) = w.toFlat side - m.sz := by
    rw [← hflat]
    unfold Work.toFlat
    rw [hpcoord]
  constructor
  case done =>
    rw [hdone]
    by_cases hbefore : w.leg.done = true
    · exact iff_of_true (.inl hbefore) (.inl (h.done.mp hbefore))
    · have hleft := h.left (Bool.not_eq_true _ ▸ hbefore)
      rw [hleft] at hflat'
      have hnonpos : w'.toFlat side ≤ 0 ↔ (w.leg.toDo : ℚ) ≤ w.leg.filled + m.sz := by
        rw [← Int.cast_nonpos (R := ℚ), hflat', sub_sub, sub_nonpos]
      rw [or_iff_right hbefore, or_iff_right (fun hr => hbefore (h.done.mpr hr)), hnonpos]
  case left =>
    intro hnot
    have hbefore : w.leg.done = false := by
      by_contra hd
      rw [hdone.mpr (.inl (by simpa using hd))] at hnot
      exact absurd hnot (by decide)
    rw [hflat', h.left hbefore, htoDo, hfilled hnot]
    ring
  case flat => exact .inr

/-- **One step in a window.**  If the window is still the same one after it, each leg is done
    exactly when its book has reached flat. -/
theorem step_tracks {reached : Side → Prop} (h : Accounts c past s) (hwhole : e.Whole)
    (heff : Effect s e s' o) (hsame : s'.nWindows = s.nWindows) (hopen : s'.windowOpen = true)
    (htracks : s.windowOpen = true → ∀ side, (s.work side).Tracks side (reached side)) :
    (s'.work side).Tracks side (reached side ∨ s'.AtFlat side) := by
  cases heff with
  | quiet hquiet =>
      unfold State.AtFlat
      rw [hquiet.work]
      exact (htracks (hquiet.windowOpen.symm.trans hopen) side).of_same
  | opens _ _ hquiet _ _ hopens =>
      have hcount := hopens.nWindows
      rw [hquiet.nWindows] at hcount
      omega
  | @closes now _ _ _ hnext =>
      obtain ⟨-, hshut, hcount, -⟩ := closed_frame s now
      rcases hnext with rfl | hopens
      · exact absurd (hshut.symm.trans hopen) (by decide)
      · have hafter := hopens.nWindows
        rw [hcount] at hafter
        omega
  | @fill m w _ _ hsz hw =>
      obtain ⟨-, hwindow, -, -, hwork⟩ := filled_frame s m w
      have hbefore := htracks (hwindow.symm.trans hopen)
      unfold State.AtFlat
      by_cases hside : side = m.side
      · subst hside
        have hleg : (s.lightWork m).leg = (s.work m.side).leg := rfl
        rw [hwork.1]
        exact (hbefore m.side).of_fill hleg (toFlat_lightWork hsz hwhole) (stamp_of_tim s m) hw
      · rw [hwork.2 side hside]
        exact (hbefore side).of_same
  | @strayFill m hdisabled =>
      have hwindow : (s.setWork m.side (s.lightWork m)).windowOpen = s.windowOpen := by
        cases m.side <;> rfl
      have henabled := h.enabled (hwindow.symm.trans hopen)
      exact absurd (henabled.symm.trans hdisabled) (by decide)
  | cutOff =>
      have hshut := (stopped_frame s).2.1
      exact absurd (hshut.symm.trans hopen) (by decide)

/-! ### Rows and waiting -/

/-- The side is reported complete. -/
def Outcome.complete : Outcome → Side → Bool
  | .ok, _ | .sessionEnd, _ => true
  | .bothShort, _ => false
  | .buyShort, side => side = .sel
  | .selShort, side => side = .buy

theorem complete_cutOffOutcome (s : State) (side : Side) :
    s.cutOffOutcome.complete side = (s.work side).leg.done := by
  unfold State.cutOffOutcome
  rcases hbuy : s.buy.leg.done <;> rcases hsel : s.sel.leg.done <;>
    cases side <;> simp [Outcome.complete, State.work, hbuy, hsel]

/-- A row reports a side complete exactly when its leg is done. -/
theorem row_complete {r : Row} (heff : Effect s e s' o) (hrow : .row r ∈ o) (side : Side) :
    r.outcome.complete side = (s.work side).leg.done := by
  cases heff with
  | quiet _ hnone => exact absurd hrow (hnone r)
  | opens => cases hrow
  | @closes now _ _ hcan _ =>
      rw [List.mem_singleton] at hrow
      cases hrow
      obtain ⟨-, hdone, -⟩ := hcan
      cases side with
      | buy => exact hdone.1.symm
      | sel => exact hdone.2.symm
  | fill => cases hrow
  | strayFill => cases hrow
  | cutOff _ _ hrows =>
      rw [(hrows r).mp hrow]
      refine (complete_cutOffOutcome s.atCutOff side).trans ?_
      have hwork := (stopped_frame s).2.2.2 side
      have hdone : (s.stopped.work side).leg.done = (s.work side).leg.done := by
        rw [hwork]
        unfold Work.cutOff
        split <;> rfl
      rw [← hdone]
      cases side <;> rfl

/-- A tick of the session past the minimum does not leave open a window whose legs are done. -/
theorem closes_of_finished (h : Accounts c past s) (hopen : s.windowOpen = true)
    (hpos : 0 < now) (hsession : s.cfg.sessionStart ≤ now) (hfinished : s.Finished now)
    (hstep : step s (.alarm probeTick now) = some (s', o)) : ∃ r, .row r ∈ o := by
  have hcloses : s.Closes probeTick now :=
    ⟨h.enabled hopen, rfl, hpos, hsession, h.touch hopen, hopen, hfinished⟩
  cases step_effect hstep with
  | quiet _ _ hidle => exact absurd hcloses hidle
  | opens _ _ _ hshut => exact absurd (hopen.symm.trans hshut) (by decide)
  | closes => exact ⟨_, List.mem_singleton.mpr rfl⟩

/-! ### Whole runs -/

/-- From the opening on, as long as the window lasts. -/
theorem run_tracks {es : List Event} (hacc : Accounts c past s₁)
    (hfresh : ∀ side, (s₁.work side).Fresh side) (hwhole : ∀ f ∈ es, f.Whole)
    (hrun : run step s₁ es = some (s, os)) :
    Accounts c (past ++ es) s ∧ (s.nWindows = s₁.nWindows → s.windowOpen = true →
      ∀ side, (s.work side).Tracks side (Reached s₁ side es)) := by
  have hall : AllSteps step (fun _ e => e.Whole) s₁ es := allSteps_of_forall hwhole s₁
  refine (run_induction (I := fun es os s => run step s₁ es = some (s, os) ∧
    s₁.nWindows ≤ s.nWindows ∧ Accounts c (past ++ es) s ∧
    (s.nWindows = s₁.nWindows → s.windowOpen = true →
      ∀ side, (s.work side).Tracks side (Reached s₁ side es))) ?_ ?_ hall hrun).2.2
  · refine ⟨rfl, Nat.le_refl _, by simpa using hacc, fun _ _ side => (hfresh side).tracks ?_⟩
    -- a fresh leg's book is not at flat
    rintro ⟨es, rest, t, out, hsplit, hes, hflat⟩
    obtain ⟨rfl, rfl⟩ := List.append_eq_nil_iff.mp hsplit.symm
    cases hes
    have hpos := (hfresh side).toDo_pos
    rw [(hfresh side).toDo] at hpos
    exact absurd hflat (Int.not_le.mpr hpos)
  · intro es os s e s' o ⟨hes, hcount, hacc, htracks⟩ he hstep
    have heff := step_effect hstep
    refine ⟨run_concat.mpr ⟨s, os, o, hes, hstep, rfl⟩, hcount.trans (nWindows_le heff), ?_, ?_⟩
    · rw [← List.append_assoc]
      exact step_accounts hacc he heff
    · intro hsame hopen side
      have hle := nWindows_le heff
      have hhere : s.nWindows = s₁.nWindows := by omega
      rw [propext (reached_concat hes hstep)]
      exact step_tracks hacc he heff (hsame.trans hhere.symm) hopen (htracks hhere)

/-- What holds of a window from its opening in `s₁`, after the messages `opening`, until `s`, after
    `later`. -/
structure WorkAccounted (c : Config) (opening : List Event) (s₁ : State) (later : List Event)
    (s : State) : Prop where
  /-- what each leg is told is the distance of its book from flat, which is what was given and not
      filled -/
  toDo : ∀ side, 0 < (s₁.work side).leg.toDo ∧
    (s₁.work side).leg.toDo = (s₁.work side).toFlat side ∧
    ((s₁.work side).leg.toDo : ℚ) = (s₁.work side).workGiven - filledQty c.sym side opening
  done : ∀ side, (s.work side).leg.done = true ↔ Reached s₁ side later
  /-- a row reports as complete the sides that reached flat -/
  reported : ∀ e s' o r, step s e = some (s', o) → .row r ∈ o →
    ∀ side, r.outcome.complete side = true ↔ Reached s₁ side later
  /-- a tick past the minimum closes the window if both sides have reached flat -/
  closes : (∀ side, Reached s₁ side later) → ∀ now s' o, 0 < now →
    s.cfg.sessionStart ≤ now → addNs s.fireTs s.cfg.minWindowNs ≤ now →
    step s (.alarm probeTick now) = some (s', o) → ∃ r, .row r ∈ o

/-- **Work accounting.** -/
theorem work_accounted (c : Config) (past : List Event) (e : Event) (later : List Event)
    (hwhole : ∀ f ∈ past ++ e :: later, f.Whole)
    (hbefore : run step (init c) past = some (s₀, out)) (hstep : step s₀ e = some (s₁, o))
    (hopens : s₁.nWindows = s₀.nWindows + 1) (hlater : run step s₁ later = some (s, os))
    (hsame : s.nWindows = s₁.nWindows) (hopen : s.windowOpen = true) :
    WorkAccounted c (past ++ [e]) s₁ later s := by
  rw [List.forall_mem_append, List.forall_mem_cons] at hwhole
  have hacc₀ : Accounts c past s₀ := run_induction (I := fun es _ s => Accounts c es s)
    (accounts_init c) (fun _ _ _ _ _ _ h he hs => step_accounts h he (step_effect hs))
    (allSteps_of_forall hwhole.1 _) hbefore
  have hacc₁ := step_accounts hacc₀ hwhole.2.1 (step_effect hstep)
  obtain ⟨hopened, hfresh⟩ := fresh_of_opens hacc₀ (step_effect hstep) hopens
  obtain ⟨hacc, htracks⟩ := run_tracks hacc₁ hfresh hwhole.2.2 hlater
  have hdone : ∀ side, (s.work side).leg.done = true ↔ Reached s₁ side later :=
    fun side => (htracks hsame hopen side).done
  constructor
  case toDo =>
    intro side
    obtain ⟨hpos, htoDo, -, -⟩ := hfresh side
    refine ⟨hpos, htoDo, ?_⟩
    have henabled := hacc₁.enabled hopened
    rw [htoDo, ← hacc₁.total henabled side]
    exact hacc₁.balanced henabled side
  case done => exact hdone
  case reported =>
    intro f s' o' r hf hrow side
    rw [row_complete (step_effect hf) hrow side]
    exact hdone side
  case closes =>
    intro hreached now s' o' hpos hsession hmin hf
    exact closes_of_finished hacc hopen hpos hsession
      ⟨hmin, (hdone .buy).mpr (hreached .buy), (hdone .sel).mpr (hreached .sel)⟩ hf

/-- Ten lots a side, a minimum of ten. -/
def tenLots : Config :=
  { sym := 1, parentSz := 10, sessionStart := 50, sessionEnd := 5000, minWindowNs := 10 }

/-- A fill of the buy side that leaves its book three lots past flat, and one of the sell side. -/
def overshoot : List Event :=
  [.eob 1 10 12, .alarm probeTick 100, .fill ⟨1, .buy, 13, 11, 101⟩, .fill ⟨1, .sel, 10, 11, 102⟩]

/-- After the overshoot the next window asks the buy side for seven lots; they are filled. -/
theorem work_accounted_overshoot : ∃ s₁ s, (s₁.work .buy).leg.toDo = 7 ∧
    (s.work .buy).leg.done = true ∧
    WorkAccounted tenLots (overshoot ++ [.alarm probeTick 150]) s₁
      [.fill ⟨1, .buy, 7, 11, 160⟩] s := by
  have heval : ((run step (init tenLots) overshoot).bind fun r =>
      (step r.1 (.alarm probeTick 150)).bind fun r₁ =>
        (run step r₁.1 [.fill ⟨1, .buy, 7, 11, 160⟩]).map fun r₂ =>
          decide ((r₁.1.nWindows = r.1.nWindows + 1 ∧ r₂.1.nWindows = r₁.1.nWindows ∧
            r₂.1.windowOpen = true) ∧ (r₁.1.work .buy).leg.toDo = 7 ∧
            (r₂.1.work .buy).leg.done = true)) = some true := by decide +kernel
  simp only [Option.bind_eq_some_iff, Option.map_eq_some_iff, decide_eq_true_eq] at heval
  obtain ⟨⟨s₀, out⟩, hbefore, ⟨s₁, o⟩, hstep, ⟨s, os⟩, hlater, ⟨hopens, hsame, hopen⟩, hseven,
    hdone⟩ := heval
  exact ⟨s₁, s, hseven, hdone, work_accounted tenLots overshoot (.alarm probeTick 150)
    [.fill ⟨1, .buy, 7, 11, 160⟩] (by decide +kernel) hbefore hstep hopens hlater hsame hopen⟩

end KasparHft.Probe
