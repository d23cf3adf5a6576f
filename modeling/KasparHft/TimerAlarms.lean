import KasparHft.TimerApart

/-!
# Alarms over whole runs

What a subscription is promised: an alarm when it is due, or one after another.  The promise is
kept in the runs whose steps all meet a condition; elsewhere an alarm can be a day late, or come a
fraction of a millisecond early.
-/

namespace KasparHft.Mtim

open Chutil (Time)
open Machine

variable {α β : Type}

/-! ### What is promised -/

/-- One alarm, at the first burst that is not before it is due. -/
def FiresOnce (alarm : Time → Alarm α) (due : ℕ) : List (UInt64 × List (Alarm α)) → Prop
  | [] => True
  | (txtim, out) :: bursts =>
      if due ≤ txtim.toNat then out = [alarm (Time.fromEpoch txtim)] ∧ ∀ b ∈ bursts, b.2 = []
      else out = [] ∧ FiresOnce alarm due bursts

/-- One alarm at a burst, or none. -/
def Rings (alarm : Time → Alarm α) (bursts : List (UInt64 × List (Alarm α))) : Prop :=
  ∀ b ∈ bursts, b.2 = [] ∨ b.2 = [alarm (Time.fromEpoch b.1)]

/-- There is an alarm no later than at the first burst that is not before a time. -/
def FiresBy (limit : ℕ) : List (UInt64 × List (Alarm α)) → Prop
  | [] => True
  | (txtim, out) :: bursts => out ≠ [] ∨ txtim.toNat < limit ∧ FiresBy limit bursts

/-- From every burst on there is one within a period. -/
def KeepsFiring (period : ℕ) : List (UInt64 × List (Alarm α)) → Prop
  | [] => True
  | (txtim, out) :: bursts =>
      FiresBy (txtim.toNat + period) ((txtim, out) :: bursts) ∧ KeepsFiring period bursts

/-- A period at least lies between an alarm and the next; the first is not before a time. -/
def Paced (period : ℕ) : ℕ → List (UInt64 × List (Alarm α)) → Prop
  | _, [] => True
  | earliest, (_, []) :: bursts => Paced period earliest bursts
  | earliest, (txtim, _ :: _) :: bursts =>
      earliest ≤ txtim.toNat ∧ Paced period (txtim.toNat + period) bursts

/-- What a subscription is promised, from the clock at which it arrived. -/
def OnTime (m : AlarmClockSub α) (clock : ℕ) (bursts : List (UInt64 × List (Alarm α))) : Prop :=
  if m.periodic then
    Rings m.alarm bursts ∧ FiresBy (clock + m.delay) bursts ∧ KeepsFiring m.delay bursts ∧
      Paced m.delay 0 bursts
  else FiresOnce m.alarm (m.due clock) bursts

/-- Where it is kept: a delay is no longer than an `int` of milliseconds holds; a relative alarm
    that comes once is asked for at a whole millisecond, and an absolute one not in its own second
    while it is to come; and the burst after a periodic alarm is not in the same millisecond, if
    the alarm was not at its beginning. -/
def Exact (timer : Timer α) : Event α → Prop
  | .eob2 txtim =>
      ∀ m ∈ timer.alarmList, m.adjusted = false →
        timer.currtim.epoch.toNat ≤ txtim.toNat / 1000000 * 1000000
  | .alarmSub m =>
      if m.isRelative then m.Fits ∧ (m.periodic = false → timer.currtim.ns.toNat % 1000000 = 0)
      else ¬ m.InItsSecond timer.currtim

instance (timer : Timer α) (e : Event α) : Decidable (Exact timer e) :=
  match e with
  | .eob2 txtim => inferInstanceAs (Decidable (∀ m ∈ timer.alarmList, m.adjusted = false →
      timer.currtim.epoch.toNat ≤ txtim.toNat / 1000000 * 1000000))
  | .alarmSub m => inferInstanceAs (Decidable (if m.isRelative then
      m.Fits ∧ (m.periodic = false → timer.currtim.ns.toNat % 1000000 = 0)
      else ¬ m.InItsSecond timer.currtim))

section Promised

variable {boost : Time.Boost} {p : α → Bool} {m : AlarmClockSub α} {w clock : Time} {d : ℕ}
  {ts : List UInt64}

theorem visit_armed (hw : w.IsAt d) (txtim : UInt64) :
    visit boost (Time.fromEpoch txtim) (m.armed w) =
      some (if d ≤ txtim.toNat then
          (if m.periodic then some (m.armed w).resetEvents else none,
            [m.alarm (Time.fromEpoch txtim)])
        else (some (m.armed w), [])) := by
  have hle := hw.le_iff (Time.fromEpoch_isAt txtim)
  have hadjust : (m.armed w).adjustToCurrentTime boost (Time.fromEpoch txtim) =
      some (m.armed w) := if_pos rfl
  rw [visit, hadjust]
  by_cases hd : d ≤ txtim.toNat
  · rw [if_pos hd]
    refine (if_pos (hle.mpr hd)).trans ?_
    split
    next hper => rw [if_pos (show m.periodic = true from hper)]; rfl
    next hper => rw [if_neg (show ¬ m.periodic = true from hper)]; rfl
  · rw [if_neg hd]
    exact if_neg (mt hle.mp hd)

/-- Where it is to be adjusted again, it is as if it were. -/
theorem visit_reset (hboost : boost.Implements) (hproper : m.Proper)
    (hfits : m.isRelative = true → m.Fits) (w : Time) (txtim : UInt64) :
    ∃ w', w'.IsAt (m.wakeUp txtim.toNat) ∧
      visit boost (Time.fromEpoch txtim) (m.armed w).resetEvents =
        visit boost (Time.fromEpoch txtim) (m.armed w') := by
  obtain ⟨w', hfind, hw'⟩ :=
    find_isAt hboost (Time.fromEpoch_isAt txtim) txtim.toNat_lt hproper hfits
  have hreset : (m.armed w).resetEvents.adjustToCurrentTime boost (Time.fromEpoch txtim) =
      some (m.armed w') := by
    refine (if_neg (by simp [AlarmClockSub.resetEvents])).trans ?_
    exact congrArg (Option.map m.armed) hfind
  have hadjust : (m.armed w').adjustToCurrentTime boost (Time.fromEpoch txtim) =
      some (m.armed w') := if_pos rfl
  exact ⟨w', hw', by rw [visit, visit, hreset, hadjust]⟩

/-- A burst of which the timer, with one subscription left, goes on. -/
theorem own_cons (boost : Time.Boost) (p : α → Bool) (x : AlarmClockSub α) (clock : Time)
    (txtim : UInt64) (ts : List UInt64) :
    own p (trace (step boost) ⟨[x], clock⟩ ((txtim :: ts).map .eob2)) = [] ∨
      ∃ kept out, visit boost (Time.fromEpoch txtim) x = some (kept, out) ∧
        step boost ⟨[x], clock⟩ (.eob2 txtim) =
          some (⟨kept.toList, Time.fromEpoch txtim⟩, out) ∧
        own p (trace (step boost) ⟨[x], clock⟩ ((txtim :: ts).map .eob2)) =
          (txtim, out.filter fun a => p a.recipient) ::
            own p (trace (step boost) ⟨kept.toList, Time.fromEpoch txtim⟩ (ts.map .eob2)) := by
  rw [List.map_cons, trace]
  by_cases hvalid : txtim > 0 ∧ (Time.fromEpoch txtim).isValid = true
  · rcases hvisit : visit boost (Time.fromEpoch txtim) x with _ | ⟨kept, out⟩
    · left
      simp [step, hvalid, processAlarmClock, hvisit, own]
    · right
      have hstep : step boost ⟨[x], clock⟩ (.eob2 txtim) =
          some (⟨kept.toList, Time.fromEpoch txtim⟩, out) := by
        simp [step, hvalid, processAlarmClock, hvisit]
      exact ⟨kept, out, rfl, hstep, by rw [hstep]; rfl⟩
  · left
    have hnone : step boost ⟨[x], clock⟩ (.eob2 txtim) = none := if_neg hvalid
    rw [hnone]
    rfl

theorem own_none (clock : Time) (ts : List UInt64) :
    ∀ b ∈ own p (trace (step boost) ⟨[], clock⟩ (ts.map .eob2)), b.2 = [] := by
  induction ts generalizing clock with
  | nil => simp [trace, own]
  | cons txtim ts ih =>
      rw [List.map_cons, trace]
      by_cases hvalid : txtim > 0 ∧ (Time.fromEpoch txtim).isValid = true
      · have hstep : step boost (⟨[], clock⟩ : Timer α) (.eob2 txtim) =
            some (⟨[], Time.fromEpoch txtim⟩, []) := if_pos hvalid
        rw [hstep]
        exact List.forall_mem_cons.mpr ⟨rfl, ih _⟩
      · have hstep : step boost (⟨[], clock⟩ : Timer α) (.eob2 txtim) = none := if_neg hvalid
        rw [hstep]
        simp [own]

/-- **Once, when it is due.** -/
theorem fires_once (hp : p m.sender = true) (hw : w.IsAt d) (honce : m.periodic = false)
    (clock : Time) (ts : List UInt64) :
    FiresOnce m.alarm d (own p (trace (step boost) ⟨[m.armed w], clock⟩ (ts.map .eob2))) := by
  induction ts generalizing clock with
  | nil => trivial
  | cons txtim ts ih =>
      rcases own_cons boost p (m.armed w) clock txtim ts with hnil | ⟨kept, out, hvisit, -, hown⟩
      · rw [hnil]
        trivial
      · rw [visit_armed hw, honce] at hvisit
        rw [hown, FiresOnce]
        by_cases hd : d ≤ txtim.toNat
        · rw [if_pos hd] at hvisit ⊢
          obtain ⟨rfl, rfl⟩ := Prod.mk.inj (Option.some.inj hvisit)
          exact ⟨by simp [AlarmClockSub.alarm, hp], own_none _ _⟩
        · rw [if_neg hd] at hvisit ⊢
          obtain ⟨rfl, rfl⟩ := Prod.mk.inj (Option.some.inj hvisit)
          exact ⟨rfl, ih _⟩

theorem fires_by (boost : Time.Boost) (hp : p m.sender = true) (hw : w.IsAt d) {limit : ℕ}
    (hd : d ≤ limit) (clock : Time) (ts : List UInt64) :
    FiresBy limit (own p (trace (step boost) ⟨[m.armed w], clock⟩ (ts.map .eob2))) := by
  induction ts generalizing clock with
  | nil => trivial
  | cons txtim ts ih =>
      rcases own_cons boost p (m.armed w) clock txtim ts with hnil | ⟨kept, out, hvisit, -, hown⟩
      · rw [hnil]
        trivial
      · rw [visit_armed hw] at hvisit
        rw [hown, FiresBy]
        by_cases hdue : d ≤ txtim.toNat
        · rw [if_pos hdue] at hvisit
          obtain ⟨-, rfl⟩ := Prod.mk.inj (Option.some.inj hvisit)
          left
          simp [AlarmClockSub.alarm, hp]
        · rw [if_neg hdue] at hvisit
          obtain ⟨rfl, rfl⟩ := Prod.mk.inj (Option.some.inj hvisit)
          exact .inr ⟨by omega, ih _⟩

/-- A burst that finds a subscription to be adjusted again finds one that is adjusted to it. -/
theorem step_reset (hboost : boost.Implements) (hproper : m.Proper)
    (hfits : m.isRelative = true → m.Fits) (w clock : Time) (txtim : UInt64) :
    ∃ w', w'.IsAt (m.wakeUp txtim.toNat) ∧
      step boost ⟨[(m.armed w).resetEvents], clock⟩ (.eob2 txtim) =
        step boost ⟨[m.armed w'], clock⟩ (.eob2 txtim) := by
  obtain ⟨w', hw', hvisit⟩ := visit_reset hboost hproper hfits w txtim
  exact ⟨w', hw', by simp only [step, processAlarmClock, hvisit]⟩

/-- **Again and again**, a period apart. -/
theorem keeps_firing (hboost : boost.Implements) (hproper : m.Proper)
    (hfits : m.isRelative = true → m.Fits) (hrel : m.isRelative = true)
    (hperiodic : m.periodic = true) (hp : p m.sender = true) (hw : w.IsAt d) (clock : Time)
    (ts : List UInt64) (earliest : ℕ) (hearly : earliest ≤ d)
    (hlate : ∀ txtim ∈ ts, d ≤ txtim.toNat + m.delay)
    (hsorted : ts.Pairwise fun t t' => t.toNat ≤ t'.toNat)
    (hexact : AllSteps (step boost) Exact ⟨[m.armed w], clock⟩ (ts.map .eob2)) :
    Rings m.alarm (own p (trace (step boost) ⟨[m.armed w], clock⟩ (ts.map .eob2))) ∧
      KeepsFiring m.delay (own p (trace (step boost) ⟨[m.armed w], clock⟩ (ts.map .eob2))) ∧
      Paced m.delay earliest
        (own p (trace (step boost) ⟨[m.armed w], clock⟩ (ts.map .eob2))) := by
  induction ts generalizing w d clock earliest with
  | nil => exact ⟨by simp [Rings, trace, own], trivial, trivial⟩
  | cons txtim ts ih =>
      obtain ⟨hhere, hrest⟩ := List.pairwise_cons.mp hsorted
      obtain ⟨hlateHere, hlateRest⟩ := List.forall_mem_cons.mp hlate
      have hby := fires_by boost hp hw hlateHere clock (txtim :: ts)
      rcases own_cons boost p (m.armed w) clock txtim ts with
        hnil | ⟨kept, out, hvisit, hstep, hown⟩
      · rw [hnil]
        exact ⟨by simp [Rings], trivial, trivial⟩
      · have hexactRest := (allSteps_cons.mp hexact).2 _ _ hstep
        rw [hown] at hby ⊢
        rw [visit_armed hw, if_pos hperiodic] at hvisit
        by_cases hdue : d ≤ txtim.toNat
        · rw [if_pos hdue] at hvisit
          obtain ⟨rfl, rfl⟩ := Prod.mk.inj (Option.some.inj hvisit)
          have hout : ([m.alarm (Time.fromEpoch txtim)].filter fun a => p a.recipient) =
              [m.alarm (Time.fromEpoch txtim)] := by simp [AlarmClockSub.alarm, hp]
          rw [hout] at hby ⊢
          -- the next burst adjusts it to its own time
          cases ts with
          | nil =>
              exact ⟨by simp [Rings, trace, own], ⟨hby, trivial⟩, Nat.le_trans hearly hdue, trivial⟩
          | cons next ts =>
              obtain ⟨w', hw', hsame⟩ :=
                step_reset hboost hproper hfits w (Time.fromEpoch txtim) next
              obtain ⟨hexactNext, hexactLater⟩ := allSteps_cons.mp hexactRest
              have hfloor : txtim.toNat ≤ next.toNat / 1000000 * 1000000 :=
                hexactNext _ (List.mem_singleton_self _) rfl
              have htrace : trace (step boost)
                    ⟨[(m.armed w).resetEvents], Time.fromEpoch txtim⟩ ((next :: ts).map .eob2) =
                  trace (step boost) ⟨[m.armed w'], Time.fromEpoch txtim⟩
                    ((next :: ts).map .eob2) := by
                rw [List.map_cons, trace, trace, hsame]
              obtain ⟨hnextHere, -⟩ := List.pairwise_cons.mp hrest
              have hwake : m.wakeUp next.toNat = next.toNat / 1000000 * 1000000 + m.delay :=
                if_pos hrel
              rw [hwake] at hw'
              obtain ⟨hrings, hkeeps, hpaced⟩ := ih hw' (Time.fromEpoch txtim)
                (txtim.toNat + m.delay) (by omega) (by
                  intro later hmem
                  rcases List.mem_cons.mp hmem with rfl | hmem
                  · omega
                  · have := hnextHere later hmem
                    omega) hrest (by
                  rw [List.map_cons, allSteps_cons]
                  refine ⟨fun x hx hreset => ?_, fun s' o hs => ?_⟩
                  · obtain rfl := List.mem_singleton.mp hx
                    cases hreset
                  · exact hexactLater s' o (hsame.trans hs))
              rw [← htrace] at hrings hkeeps hpaced
              exact ⟨List.forall_mem_cons.mpr ⟨.inr rfl, hrings⟩, ⟨hby, hkeeps⟩,
                Nat.le_trans hearly hdue, hpaced⟩
        · rw [if_neg hdue] at hvisit
          obtain ⟨rfl, rfl⟩ := Prod.mk.inj (Option.some.inj hvisit)
          obtain ⟨hrings, hkeeps, hpaced⟩ :=
            ih hw (Time.fromEpoch txtim) earliest hearly hlateRest hrest hexactRest
          exact ⟨List.forall_mem_cons.mpr ⟨.inl rfl, hrings⟩, ⟨hby, hkeeps⟩, hpaced⟩

end Promised

/-! ### Runs -/

/-- What the market and the subscribers bring: the times of bursts do not decrease and are valid,
    and subscriptions arrive once the clock is known, as a constructor leaves them. -/
def Brings (timer : Timer α) : Event α → Prop
  | .eob2 txtim =>
      0 < txtim ∧ (Time.fromEpoch txtim).isValid = true ∧ timer.currtim.epoch ≤ txtim
  | .alarmSub m => timer.currtim.isValid = true ∧ m.adjusted = false ∧ m.Proper

instance (timer : Timer α) (e : Event α) : Decidable (Brings timer e) :=
  match e with
  | .eob2 txtim => inferInstanceAs (Decidable (0 < txtim ∧ (Time.fromEpoch txtim).isValid = true ∧
      timer.currtim.epoch ≤ txtim))
  | .alarmSub m => inferInstanceAs (Decidable (timer.currtim.isValid = true ∧ m.adjusted = false ∧
      m.Proper))

/-- A subscription of the list can be gone through. -/
structure AlarmClockSub.Sound (m : AlarmClockSub α) : Prop where
  proper : m.Proper
  fits : m.isRelative = true → m.Fits
  armed : m.adjusted = true → ∃ d, m.timToWakeUp.IsAt d

/-- The clock is the time of a burst, or not known. -/
def Timer.Clocked (timer : Timer α) : Prop :=
  timer.currtim.isValid = true → timer.currtim = Time.fromEpoch timer.currtim.epoch

section Runs

variable {boost : Time.Boost} {timer : Timer α} {m : AlarmClockSub α}

theorem Timer.Clocked.isAt (h : timer.Clocked) (hvalid : timer.currtim.isValid = true) :
    timer.currtim.IsAt timer.currtim.epoch.toNat := by
  have hclock := Time.fromEpoch_isAt timer.currtim.epoch
  rwa [← h hvalid] at hclock

theorem fits_of_exact (h : Exact timer (.alarmSub m)) : m.isRelative = true → m.Fits := by
  intro hrel
  rw [Exact, if_pos hrel] at h
  exact h.1

theorem wakeUp_of_exact {n : ℕ} (hclock : timer.currtim.IsAt n) (hproper : m.Proper)
    (honce : m.periodic = false) (h : Exact timer (.alarmSub m)) : m.wakeUp n = m.due n := by
  rw [wakeUp_eq_due_iff hclock hproper]
  cases hrel : m.isRelative with
  | true =>
      rw [Exact, if_pos hrel] at h
      rw [if_pos rfl]
      exact h.2 honce
  | false =>
      rw [Exact, if_neg (by simp [hrel])] at h
      rw [if_neg (by decide)]
      exact h

theorem armed_self (h : m.adjusted = true) : m.armed m.timToWakeUp = m := by
  cases m
  cases h
  rfl

theorem AlarmClockSub.Sound.armed_isAt {w : Time} {d : ℕ} (h : m.Sound) (hw : w.IsAt d) :
    (m.armed w).Sound :=
  ⟨⟨h.proper.s, h.proper.ms, h.proper.time⟩, h.fits, fun _ => ⟨d, hw⟩⟩

theorem AlarmClockSub.Sound.resetEvents (h : m.Sound) : m.resetEvents.Sound :=
  ⟨⟨h.proper.s, h.proper.ms, h.proper.time⟩, h.fits, fun hadjusted => by cases hadjusted⟩

/-- A sound subscription has a time to wake up when the loop comes to it. -/
theorem adjust_sound (hboost : boost.Implements) (h : m.Sound) (txtim : UInt64) :
    ∃ w d, w.IsAt d ∧
      m.adjustToCurrentTime boost (Time.fromEpoch txtim) = some (m.armed w) := by
  cases hadjusted : m.adjusted with
  | true =>
      obtain ⟨d, hd⟩ := h.armed hadjusted
      exact ⟨m.timToWakeUp, d, hd, by
        rw [AlarmClockSub.adjustToCurrentTime, if_pos hadjusted, armed_self hadjusted]⟩
  | false =>
      obtain ⟨w, hfind, hw⟩ :=
        find_isAt hboost (Time.fromEpoch_isAt txtim) txtim.toNat_lt h.proper h.fits
      refine ⟨w, _, hw, (if_neg (by simp [hadjusted])).trans ?_⟩
      exact congrArg (Option.map m.armed) hfind

theorem visit_sound (hboost : boost.Implements) (h : m.Sound) (txtim : UInt64) :
    ∃ kept out, visit boost (Time.fromEpoch txtim) m = some (kept, out) ∧
      ∀ m' ∈ kept.toList, m'.Sound := by
  obtain ⟨w, d, hw, hadjust⟩ := adjust_sound hboost h txtim
  have harmed := h.armed_isAt hw
  have hvisit : visit boost (Time.fromEpoch txtim) m =
      visit boost (Time.fromEpoch txtim) (m.armed w) := by
    have hstays : (m.armed w).adjustToCurrentTime boost (Time.fromEpoch txtim) =
        some (m.armed w) := if_pos rfl
    rw [visit, visit, hadjust, hstays]
  rw [hvisit, visit_armed hw]
  split
  next =>
    refine ⟨_, _, rfl, ?_⟩
    split
    next =>
      intro m' hm'
      obtain rfl := List.mem_singleton.mp hm'
      exact harmed.resetEvents
    next => simp
  next =>
    refine ⟨_, _, rfl, ?_⟩
    intro m' hm'
    obtain rfl := List.mem_singleton.mp hm'
    exact harmed

theorem processAlarmClock_sound (hboost : boost.Implements) {alarmList : List (AlarmClockSub α)}
    (h : ∀ m ∈ alarmList, m.Sound) (txtim : UInt64) :
    ∃ kept out, processAlarmClock boost (Time.fromEpoch txtim) alarmList = some (kept, out) ∧
      ∀ m ∈ kept, m.Sound := by
  induction alarmList with
  | nil => exact ⟨[], [], rfl, by simp⟩
  | cons m alarmList ih =>
      obtain ⟨hm, hrest⟩ := List.forall_mem_cons.mp h
      obtain ⟨kept, out, hprocess, hkept⟩ := ih hrest
      obtain ⟨keptOne, sent, hvisit, hone⟩ := visit_sound hboost hm txtim
      refine ⟨keptOne.toList ++ kept, sent ++ out, ?_, ?_⟩
      · rw [processAlarmClock, hvisit]
        exact Option.bind_eq_some_iff.mpr
          ⟨(keptOne, sent), rfl, Option.bind_eq_some_iff.mpr ⟨_, hprocess, rfl⟩⟩
      · intro m' hm'
        rcases List.mem_append.mp hm' with hm' | hm'
        · exact hone m' hm'
        · exact hkept m' hm'

/-- A subscription that arrives gets its time to wake up. -/
theorem subscribe (hboost : boost.Implements) (hclocked : timer.Clocked)
    (hbrings : Brings timer (.alarmSub m)) (hfits : m.isRelative = true → m.Fits) :
    ∃ w, w.IsAt (m.wakeUp timer.currtim.epoch.toNat) ∧
      step boost timer (.alarmSub m) =
        some ({ timer with alarmList := timer.alarmList ++ [m.armed w] }, []) := by
  obtain ⟨hvalid, hnew, hproper⟩ := hbrings
  have hclock := hclocked.isAt hvalid
  obtain ⟨w, hfind, hw⟩ := find_isAt hboost hclock timer.currtim.epoch.toNat_lt hproper hfits
  refine ⟨w, hw, ?_⟩
  dsimp only [step]
  rw [if_pos hvalid, AlarmClockSub.adjustToCurrentTime, if_neg (by simp [hnew]), hfind]
  rfl

/-- What a run keeps. -/
def Timer.Sound (timer : Timer α) : Prop := (∀ m ∈ timer.alarmList, m.Sound) ∧ timer.Clocked

theorem step_sound (hboost : boost.Implements) (h : timer.Sound) {e : Event α}
    (he : Brings timer e ∧ Exact timer e) :
    ∃ r, step boost timer e = some r ∧ r.1.Sound := by
  cases e with
  | eob2 txtim =>
      obtain ⟨⟨hpos, hvalid, -⟩, -⟩ := he
      obtain ⟨kept, out, hprocess, hkept⟩ := processAlarmClock_sound hboost h.1 txtim
      refine ⟨(⟨kept, Time.fromEpoch txtim⟩, out), ?_, hkept, fun _ => rfl⟩
      refine (if_pos ⟨hpos, hvalid⟩).trans ?_
      rw [hprocess]
      rfl
  | alarmSub m =>
      obtain ⟨hbrings, hexact⟩ := he
      have hfits := fits_of_exact hexact
      obtain ⟨w, hw, hstep⟩ := subscribe hboost h.2 hbrings hfits
      refine ⟨_, hstep, fun m' hm' => ?_, h.2⟩
      rcases List.mem_append.mp hm' with hm' | hm'
      · exact h.1 m' hm'
      · obtain rfl := List.mem_singleton.mp hm'
        exact AlarmClockSub.Sound.armed_isAt ⟨hbrings.2.2, hfits, by simp [hbrings.2.1]⟩ hw

theorem run_sound (hboost : boost.Implements) (h : timer.Sound) {es : List (Event α)}
    (hbrings : AllSteps (step boost) Brings timer es)
    (hexact : AllSteps (step boost) Exact timer es) :
    ∃ s os, run (step boost) timer es = some (s, os) ∧ s.Sound :=
  exists_run_induction (I := fun _ timer => timer.Sound) h
    (fun _ _ _ hsound he => step_sound hboost hsound he) (allSteps_and hbrings hexact)

theorem initial_sound : (Timer.initial : Timer α).Sound := by
  refine ⟨by simp [Timer.initial], fun hvalid => ?_⟩
  cases hvalid

theorem step_currtim {timer' : Timer α} {e : Event α} {out : List (Alarm α)}
    (h : step boost timer e = some (timer', out)) :
    timer'.currtim = match e with
      | .eob2 txtim => Time.fromEpoch txtim
      | .alarmSub _ => timer.currtim := by
  cases e with
  | eob2 txtim =>
      dsimp only [step] at h
      split at h
      next =>
        obtain ⟨r, -, hlast⟩ := Option.bind_eq_some_iff.mp h
        obtain ⟨rfl, -⟩ := Prod.mk.inj (Option.some.inj hlast)
        rfl
      next => cases h
  | alarmSub m =>
      dsimp only [step] at h
      obtain ⟨m', -, hlast⟩ := Option.map_eq_some_iff.mp h
      obtain ⟨rfl, -⟩ := Prod.mk.inj hlast
      rfl

/-- The times of the bursts that follow do not decrease, and are not before the clock. -/
theorem times_sorted {es : List (Event α)} (hbrings : AllSteps (step boost) Brings timer es)
    {r : Timer α × List (Alarm α)} (hrun : run (step boost) timer es = some r) :
    (∀ t ∈ times es, timer.currtim.epoch.toNat ≤ t.toNat) ∧
      (times es).Pairwise fun t t' => t.toNat ≤ t'.toNat := by
  induction es generalizing timer r with
  | nil => exact ⟨by simp [times], .nil⟩
  | cons e es ih =>
      obtain ⟨s, o, os, hstep, hrest, -⟩ := run_cons.mp hrun
      obtain ⟨hhere, hlater⟩ := allSteps_cons.mp hbrings
      obtain ⟨hafter, hsorted⟩ := ih (hlater _ _ hstep) hrest
      have hcurrtim := step_currtim hstep
      cases e with
      | eob2 txtim =>
          have hle := UInt64.le_iff_toNat_le.mp hhere.2.2
          rw [hcurrtim] at hafter
          refine ⟨List.forall_mem_cons.mpr ⟨hle, fun t ht => ?_⟩,
            List.pairwise_cons.mpr ⟨hafter, hsorted⟩⟩
          exact Nat.le_trans hle (hafter t ht)
      | alarmSub m =>
          rw [hcurrtim] at hafter
          exact ⟨hafter, hsorted⟩

theorem exact_only {p : α → Bool} {es : List (Event α)}
    (hother : ∀ m, .alarmSub m ∈ es → p m.sender = false)
    {r : Timer α × List (Alarm α)} (hrun : run (step boost) timer es = some r)
    (hexact : AllSteps (step boost) Exact timer es) :
    AllSteps (step boost) Exact (timer.only p) ((times es).map .eob2) := by
  induction es generalizing timer r with
  | nil => trivial
  | cons e es ih =>
      obtain ⟨s, o, os, hstep, hrest, -⟩ := run_cons.mp hrun
      obtain ⟨hhere, hlater⟩ := allSteps_cons.mp hexact
      have honly := ih (fun m hm => hother m (List.mem_cons_of_mem e hm)) hrest (hlater _ _ hstep)
      cases e with
      | eob2 txtim =>
          refine allSteps_cons.mpr ⟨fun m hm => hhere m (List.mem_filter.mp hm).1, ?_⟩
          intro s' o' hstep'
          obtain ⟨rfl, -⟩ := Prod.mk.inj (Option.some.inj ((step_eob2 hstep).symm.trans hstep'))
          exact honly
      | alarmSub m =>
          obtain ⟨hsame, -⟩ := step_alarmSub (hother m List.mem_cons_self) hstep
          rwa [hsame] at honly

/-- **A subscription that arrives is on time**, whatever else is in the list or arrives later. -/
theorem on_time (hboost : boost.Implements) (h : timer.Sound) {p : α → Bool} {s : Timer α}
    {out : List (Alarm α)} {rest : List (Event α)} (hp : p m.sender = true)
    (hbefore : ∀ m' ∈ timer.alarmList, p m'.sender = false)
    (hlater : ∀ m', .alarmSub m' ∈ rest → p m'.sender = false)
    (hbrings : AllSteps (step boost) Brings timer (.alarmSub m :: rest))
    (hexact : AllSteps (step boost) Exact timer (.alarmSub m :: rest))
    (hstep : step boost timer (.alarmSub m) = some (s, out)) :
    OnTime m timer.currtim.epoch.toNat (own p (trace (step boost) s rest)) := by
  obtain ⟨hbringsHere, hbringsRest⟩ := allSteps_cons.mp hbrings
  obtain ⟨hexactHere, hexactRest⟩ := allSteps_cons.mp hexact
  have hproper := hbringsHere.2.2
  have hfits := fits_of_exact hexactHere
  obtain ⟨w, hw, hsub⟩ := subscribe hboost h.2 hbringsHere hfits
  obtain ⟨⟨_, _⟩, hsub', hsound⟩ := step_sound hboost h ⟨hbringsHere, hexactHere⟩
  obtain ⟨rfl, -⟩ := Prod.mk.inj (Option.some.inj (hsub'.symm.trans hstep))
  obtain ⟨rfl, -⟩ := Prod.mk.inj (Option.some.inj (hsub.symm.trans hsub'))
  obtain ⟨t, os, hrun, -⟩ := run_sound hboost hsound (hbringsRest _ _ hstep) (hexactRest _ _ hstep)
  obtain ⟨hafter, hsorted⟩ := times_sorted (hbringsRest _ _ hstep) hrun
  have honly := exact_only hlater hrun (hexactRest _ _ hstep)
  have hone : Timer.only p { timer with alarmList := timer.alarmList ++ [m.armed w] } =
      ⟨[m.armed w], timer.currtim⟩ := by
    have hnone : (timer.alarmList.filter fun m => p m.sender) = [] :=
      List.filter_eq_nil_iff.mpr fun m' hm' => by simp [hbefore m' hm']
    have hself : p (m.armed w).sender = true := hp
    simp [Timer.only, hnone, hself]
  rw [own_trace hlater hrun, hone]
  rw [hone] at honly
  cases hperiodic : m.periodic with
  | true =>
      have hrel : m.isRelative = true := by
        cases hrel : m.isRelative with
        | true => rfl
        | false =>
            have := (hproper.time hrel).2.2.2.2.2.2
            simp [hperiodic] at this
      have hwake : m.wakeUp timer.currtim.epoch.toNat =
          timer.currtim.epoch.toNat / 1000000 * 1000000 + m.delay := if_pos hrel
      rw [hwake] at hw
      obtain ⟨hrings, hkeeps, hpaced⟩ := keeps_firing hboost hproper hfits hrel hperiodic hp hw
        timer.currtim (times rest) 0 (Nat.zero_le _) (fun t ht => by
          have hclock : timer.currtim.epoch.toNat ≤ t.toNat := hafter t ht
          omega) hsorted honly
      rw [OnTime, if_pos hperiodic]
      exact ⟨hrings, fires_by boost hp hw (by omega) timer.currtim (times rest), hkeeps, hpaced⟩
  | false =>
      have hclock := h.2.isAt hbringsHere.1
      rw [OnTime, if_neg (by simp [hperiodic]),
        ← wakeUp_of_exact hclock hproper hperiodic hexactHere]
      exact fires_once hp hw hperiodic timer.currtim (times rest)

/-- Whoever is in the list was there or arrived. -/
theorem run_senders {q : α → Prop} (h : ∀ m ∈ timer.alarmList, q m.sender) {es : List (Event α)}
    (hes : ∀ m, .alarmSub m ∈ es → q m.sender) {s : Timer α} {out : List (Alarm α)}
    (hrun : run (step boost) timer es = some (s, out)) : ∀ m ∈ s.alarmList, q m.sender := by
  induction es generalizing timer out with
  | nil =>
      obtain ⟨rfl, -⟩ := Prod.mk.inj (Option.some.inj hrun)
      exact h
  | cons e es ih =>
      obtain ⟨t, o, os, hstep, hrest, -⟩ := run_cons.mp hrun
      refine ih ?_ (fun m hm => hes m (List.mem_cons_of_mem e hm)) hrest
      cases e with
      | eob2 txtim =>
          dsimp only [step] at hstep
          split at hstep
          next =>
            obtain ⟨⟨kept, sent⟩, hprocess, hlast⟩ := Option.bind_eq_some_iff.mp hstep
            obtain ⟨rfl, -⟩ := Prod.mk.inj (Option.some.inj hlast)
            exact processAlarmClock_senders h hprocess
          next => cases hstep
      | alarmSub m =>
          dsimp only [step] at hstep
          obtain ⟨m', hadjust, hlast⟩ := Option.map_eq_some_iff.mp hstep
          obtain ⟨rfl, -⟩ := Prod.mk.inj hlast
          intro x hx
          rcases List.mem_append.mp hx with hx | hx
          · exact h x hx
          · obtain rfl := List.mem_singleton.mp hx
            rw [subscribe_sender hadjust]
            exact hes m List.mem_cons_self

end Runs

/-! ### All subscriptions -/

theorem brings_map (f : α → β) (timer : Timer α) (e : Event α) :
    Brings (timer.map f) (e.map f) ↔ Brings timer e := by
  cases e with
  | eob2 txtim => exact Iff.rfl
  | alarmSub m =>
      refine and_congr_right fun _ => and_congr_right fun _ => ?_
      exact ⟨fun h => ⟨h.s, h.ms, h.time⟩, fun h => ⟨h.s, h.ms, h.time⟩⟩

theorem exact_map (f : α → β) (timer : Timer α) (e : Event α) :
    Exact (timer.map f) (e.map f) ↔ Exact timer e := by
  cases e with
  | eob2 txtim => exact List.forall_mem_map
  | alarmSub m => exact Iff.rfl

section All

variable {boost : Time.Boost} {es : List (Event α)}

theorem allSteps_numbered {P : Timer (ℕ × α) → Event (ℕ × α) → Prop}
    {Q : Timer α → Event α → Prop}
    (h : ∀ timer e, Q (timer.map Prod.snd) (e.map Prod.snd) ↔ P timer e)
    (hes : AllSteps (step boost) Q Timer.initial es) :
    AllSteps (step boost) P Timer.initial (numbered 0 es) := by
  have hall := (allSteps_map (P := Q) (step_map boost Prod.snd) Timer.initial
    (numbered 0 es)).mp (by rwa [numbered_map])
  have hsame : (fun timer e => Q (Timer.map Prod.snd timer) (Event.map Prod.snd e)) = P :=
    funext₂ fun timer e => propext (h timer e)
  rwa [hsame] at hall

theorem trace_numbered :
    (trace (step boost) Timer.initial (numbered 0 es)).map
        (fun r => (r.1.map Prod.snd, r.2.map (·.map Prod.snd))) =
      trace (step boost) Timer.initial es := by
  have htrace := trace_map (step_map boost (Prod.snd : ℕ × α → α)) Timer.initial
    (numbered 0 es)
  rw [numbered_map] at htrace
  exact htrace.symm

/-- **Alarms are on time.**  The timer goes on, the alarms are those of the numbered subscriptions,
    and each of these gets its own when they are due. -/
theorem alarms_on_time (hboost : boost.Implements) (es : List (Event α))
    (hbrings : AllSteps (step boost) Brings Timer.initial es)
    (hexact : AllSteps (step boost) Exact Timer.initial es) :
    (∃ r, run (step boost) Timer.initial es = some r) ∧
    (trace (step boost) Timer.initial (numbered 0 es)).map
        (fun r => (r.1.map Prod.snd, r.2.map (·.map Prod.snd))) =
      trace (step boost) Timer.initial es ∧
    ∀ past m rest, es = past ++ .alarmSub m :: rest →
      ∃ s out, run (step boost) Timer.initial (numbered 0 (past ++ [.alarmSub m])) =
          some (s, out) ∧
        OnTime (m.map (Prod.mk (subs past))) s.currtim.epoch.toNat
          (own (fun a => a.1 = subs past)
            (trace (step boost) s (numbered (subs past + 1) rest))) := by
  obtain ⟨t, os, hrun, -⟩ := run_sound hboost initial_sound hbrings hexact
  refine ⟨⟨_, hrun⟩, trace_numbered, ?_⟩
  rintro past m rest rfl
  have hbringsN := allSteps_numbered (brings_map Prod.snd) hbrings
  have hexactN := allSteps_numbered (exact_map Prod.snd) hexact
  rw [numbered_append, Nat.zero_add] at hbringsN hexactN
  obtain ⟨hbringsPast, hbringsRest⟩ := allSteps_append.mp hbringsN
  obtain ⟨hexactPast, hexactRest⟩ := allSteps_append.mp hexactN
  obtain ⟨timer, out, hpast, hsound⟩ :=
    run_sound hboost initial_sound hbringsPast hexactPast
  have hbringsFrom := hbringsRest _ _ hpast
  have hexactFrom := hexactRest _ _ hpast
  obtain ⟨⟨s, o⟩, hstep, -⟩ := step_sound hboost hsound
    ⟨(allSteps_cons.mp hbringsFrom).1, (allSteps_cons.mp hexactFrom).1⟩
  refine ⟨s, out ++ o, ?_, ?_⟩
  · rw [numbered_append, Nat.zero_add]
    exact run_concat.mpr ⟨timer, out, o, hpast, hstep, rfl⟩
  · rw [step_currtim hstep]
    refine on_time hboost hsound (by simp [AlarmClockSub.map]) ?_ ?_ hbringsFrom hexactFrom hstep
    · refine run_senders (q := fun a => decide (a.1 = subs past) = false) ?_ ?_ hpast
      · simp [Timer.initial]
      · intro m' hm'
        have hless := (numbered_sender hm').2
        simp only [decide_eq_false_iff_not]
        omega
    · intro m' hm'
      have hmore := (numbered_sender hm').1
      simp only [decide_eq_false_iff_not]
      omega

/-- One in five seconds, and one each second, at the beginning of a day in February. -/
theorem alarms_on_time_february :
    ∃ s out, run (step Time.Boost.calendar) Timer.initial
          (numbered 0 [.eob2 1580515200000000000, .alarmSub (.relative 5 0 7 false ())]) =
        some (s, out) ∧
      OnTime ((AlarmClockSub.relative 5 0 7 false ()).map (Prod.mk 0)) s.currtim.epoch.toNat
        (own (fun a => a.1 = 0) (trace (step Time.Boost.calendar) s
          (numbered 1 [.eob2 1580515204000000000, .alarmSub (.relative 1 0 8 true ()),
            .eob2 1580515206000000000, .eob2 1580515208000000000]))) :=
  (alarms_on_time Time.Boost.calendar_implements [.eob2 1580515200000000000,
      .alarmSub (.relative 5 0 7 false ()), .eob2 1580515204000000000,
      .alarmSub (.relative 1 0 8 true ()), .eob2 1580515206000000000,
      .eob2 1580515208000000000]
    (by decide +kernel) (by decide +kernel)).2.2 [.eob2 1580515200000000000] _ _ rfl

/-- At 12:30:15.200, one is asked for at 12:30:15.500; at 12:30:15.600 there is none. -/
theorem same_second_missed :
    ∃ m, AlarmClockSub.absolute 12 30 15 500 7 () = some m ∧
      AllSteps (step Time.Boost.calendar) Brings Timer.initial
        [.eob2 1580560215200000000, .alarmSub m, .eob2 1580560215600000000] ∧
      ∀ s out, run (step Time.Boost.calendar) Timer.initial
          [.eob2 1580560215200000000, .alarmSub m] = some (s, out) →
        ¬ OnTime m s.currtim.epoch.toNat (own (fun _ => true)
          (trace (step Time.Boost.calendar) s [.eob2 1580560215600000000])) := by
  refine ⟨⟨12, 30, 15, 500, false, false, false, ⟨0, 0, 0⟩, 7, 4294967295, ()⟩, by decide,
    by decide +kernel, fun s out hrun => ?_⟩
  have hshown : (run (step Time.Boost.calendar) Timer.initial
      [.eob2 1580560215200000000, .alarmSub ⟨12, 30, 15, 500, false, false, false, ⟨0, 0, 0⟩, 7,
        4294967295, ()⟩]).map (fun r => (r.1.currtim.epoch.toNat, own (fun _ => true)
          (trace (step Time.Boost.calendar) r.1 [.eob2 1580560215600000000]))) =
      some (1580560215200000000, [(1580560215600000000, [])]) := by
    decide +kernel
  rw [hrun] at hshown
  obtain ⟨hclock, hown⟩ := Prod.mk.inj (Option.some.inj hshown)
  rw [hclock, hown, OnTime, if_neg (by decide), FiresOnce, if_pos (by decide +kernel)]
  rintro ⟨hnone, -⟩
  cases hnone

end All

end KasparHft.Mtim
