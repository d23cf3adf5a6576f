import KasparHft.Timer

/-!
# One subscription among others

The loop treats each subscription by itself, so a run shows each of them what a run with no other
would.  To tell apart the alarms of subscriptions that look the same, these are numbered in the
order in which they arrive; the numbers stand beside whom an alarm is sent to, and the timer does
not look at them.
-/

namespace KasparHft.Mtim

open Chutil (Time)
open Machine

variable {α β : Type}

/-! ### Numbers -/

def AlarmClockSub.map (f : α → β) (m : AlarmClockSub α) : AlarmClockSub β :=
  { m with sender := f m.sender }

def Alarm.map (f : α → β) (a : Alarm α) : Alarm β := { a with recipient := f a.recipient }

def Timer.map (f : α → β) (timer : Timer α) : Timer β :=
  ⟨timer.alarmList.map (·.map f), timer.currtim⟩

def Event.map (f : α → β) : Event α → Event β
  | .eob2 txtim => .eob2 txtim
  | .alarmSub m => .alarmSub (m.map f)

/-- The subscriptions, numbered from `n`. -/
def numbered : ℕ → List (Event α) → List (Event (ℕ × α))
  | _, [] => []
  | n, .eob2 txtim :: es => .eob2 txtim :: numbered n es
  | n, .alarmSub m :: es => .alarmSub (m.map (Prod.mk n)) :: numbered (n + 1) es

/-- How many subscriptions there are. -/
def subs : List (Event α) → ℕ
  | [] => 0
  | .eob2 _ :: es => subs es
  | .alarmSub _ :: es => subs es + 1

section Map

variable (boost : Time.Boost) (f : α → β)

theorem adjust_map (m : AlarmClockSub α) (tim : Time) :
    (m.map f).adjustToCurrentTime boost tim = (m.adjustToCurrentTime boost tim).map (·.map f) := by
  have hsame : (m.map f).adjusted = m.adjusted := rfl
  have hfind : (m.map f).findTimToWakeUp boost tim = m.findTimToWakeUp boost tim := rfl
  rw [AlarmClockSub.adjustToCurrentTime, AlarmClockSub.adjustToCurrentTime, hsame, hfind]
  split
  next => rfl
  next =>
    rw [Option.map_map]
    rfl

theorem visit_map (currtim : Time) (m : AlarmClockSub α) :
    visit boost currtim (m.map f) =
      (visit boost currtim m).map fun r => (r.1.map (·.map f), r.2.map (·.map f)) := by
  unfold visit
  rw [adjust_map boost f]
  cases m.adjustToCurrentTime boost currtim with
  | none => rfl
  | some m =>
      dsimp only [Option.map_some, Option.bind_eq_bind, Option.bind_some, AlarmClockSub.map]
      split
      next =>
        split
        next => rfl
        next => rfl
      next => rfl

theorem processAlarmClock_map (currtim : Time) (alarmList : List (AlarmClockSub α)) :
    processAlarmClock boost currtim (alarmList.map (·.map f)) =
      (processAlarmClock boost currtim alarmList).map
        fun r => (r.1.map (·.map f), r.2.map (·.map f)) := by
  induction alarmList with
  | nil => rfl
  | cons m alarmList ih =>
      rw [List.map_cons, processAlarmClock, processAlarmClock, visit_map boost f, ih]
      rcases visit boost currtim m with _ | ⟨kept, sent⟩
      · rfl
      · rcases processAlarmClock boost currtim alarmList with _ | ⟨rest, out⟩
        · rfl
        · cases kept <;> simp

/-- **Whom alarms are sent to makes no difference** to the timer. -/
theorem step_map (timer : Timer α) (e : Event α) :
    step boost (timer.map f) (e.map f) =
      (step boost timer e).map fun r => (r.1.map f, r.2.map (·.map f)) := by
  cases e with
  | eob2 txtim =>
      dsimp only [Event.map, step, Timer.map]
      rw [processAlarmClock_map boost f]
      split
      next =>
        cases processAlarmClock boost (Time.fromEpoch txtim) timer.alarmList with
        | none => rfl
        | some r => rfl
      next => rfl
  | alarmSub m =>
      dsimp only [Event.map, step, Timer.map]
      rw [adjust_map boost f]
      split
      next =>
        cases m.adjustToCurrentTime boost timer.currtim with
        | none => rfl
        | some m => simp
      next => simp

theorem numbered_map (n : ℕ) (es : List (Event α)) :
    (numbered n es).map (·.map Prod.snd) = es := by
  induction es generalizing n with
  | nil => rfl
  | cons e es ih =>
      cases e with
      | eob2 txtim => exact congrArg _ (ih n)
      | alarmSub m => exact congrArg _ (ih (n + 1))

theorem numbered_append (n : ℕ) (es fs : List (Event α)) :
    numbered n (es ++ fs) = numbered n es ++ numbered (n + subs es) fs := by
  induction es generalizing n with
  | nil => rfl
  | cons e es ih =>
      cases e with
      | eob2 txtim => exact congrArg _ (ih n)
      | alarmSub m =>
          have hn : n + (subs es + 1) = n + 1 + subs es := by omega
          rw [subs, hn]
          exact congrArg _ (ih (n + 1))

end Map

theorem numbered_sender {n : ℕ} {es : List (Event α)} {m : AlarmClockSub (ℕ × α)}
    (h : .alarmSub m ∈ numbered n es) : n ≤ m.sender.1 ∧ m.sender.1 < n + subs es := by
  induction es generalizing n with
  | nil => simp [numbered] at h
  | cons e es ih =>
      cases e with
      | eob2 txtim =>
          rcases List.mem_cons.mp h with h | h
          · cases h
          · exact ih h
      | alarmSub m' =>
          rw [subs]
          rcases List.mem_cons.mp h with h | h
          · cases h
            exact ⟨Nat.le_refl n, Nat.lt_add_of_pos_right (Nat.succ_pos _)⟩
          · obtain ⟨hfrom, hto⟩ := ih h
            exact ⟨by omega, by omega⟩

/-! ### One subscription by itself -/

/-- The times of the bursts. -/
def times : List (Event α) → List UInt64
  | [] => []
  | .eob2 txtim :: es => txtim :: times es
  | .alarmSub _ :: es => times es

/-- With the subscriptions of some senders only. -/
def Timer.only (p : α → Bool) (timer : Timer α) : Timer α :=
  { timer with alarmList := timer.alarmList.filter fun m => p m.sender }

/-- The bursts, each with the alarms that are sent to some. -/
def own (p : α → Bool) : List (Event α × List (Alarm α)) → List (UInt64 × List (Alarm α))
  | [] => []
  | (.eob2 txtim, out) :: tr => (txtim, out.filter fun a => p a.recipient) :: own p tr
  | (.alarmSub _, _) :: tr => own p tr

section Alone

variable {boost : Time.Boost} {p : α → Bool} {timer timer' : Timer α}

theorem adjust_sender {m m' : AlarmClockSub α} {tim : Time}
    (h : m.adjustToCurrentTime boost tim = some m') : m'.sender = m.sender := by
  unfold AlarmClockSub.adjustToCurrentTime at h
  split at h
  next =>
    obtain rfl := Option.some.inj h
    rfl
  next =>
    obtain ⟨w, -, rfl⟩ := Option.map_eq_some_iff.mp h
    rfl

theorem visit_sender {m : AlarmClockSub α} {currtim : Time} {kept : Option (AlarmClockSub α)}
    {sent : List (Alarm α)} (h : visit boost currtim m = some (kept, sent)) :
    (∀ m' ∈ kept.toList, m'.sender = m.sender) ∧ ∀ a ∈ sent, a.recipient = m.sender := by
  unfold visit at h
  obtain ⟨m', hadjust, hrest⟩ := Option.bind_eq_some_iff.mp h
  have hsender := adjust_sender hadjust
  split at hrest
  next =>
    split at hrest
    all_goals
      obtain ⟨rfl, rfl⟩ := Prod.mk.inj (Option.some.inj hrest)
      simp [AlarmClockSub.resetEvents, AlarmClockSub.alarm, hsender]
  next =>
    obtain ⟨rfl, rfl⟩ := Prod.mk.inj (Option.some.inj hrest)
    simp [hsender]

/-- **Subscriptions do not get in each other's way**: in one update. -/
theorem processAlarmClock_filter {currtim : Time} {alarmList kept : List (AlarmClockSub α)}
    {out : List (Alarm α)} (h : processAlarmClock boost currtim alarmList = some (kept, out)) :
    processAlarmClock boost currtim (alarmList.filter fun m => p m.sender) =
      some (kept.filter fun m => p m.sender, out.filter fun a => p a.recipient) := by
  induction alarmList generalizing kept out with
  | nil =>
      cases h
      rfl
  | cons m alarmList ih =>
      rw [processAlarmClock] at h
      obtain ⟨⟨keptOne, sent⟩, hvisit, hrest⟩ := Option.bind_eq_some_iff.mp h
      obtain ⟨⟨keptRest, outRest⟩, hprocess, hlast⟩ := Option.bind_eq_some_iff.mp hrest
      obtain ⟨rfl, rfl⟩ := Prod.mk.inj (Option.some.inj hlast)
      obtain ⟨hkept, hsent⟩ := visit_sender hvisit
      rw [List.filter_append, List.filter_append]
      cases hp : p m.sender with
      | true =>
          have hone : (keptOne.toList.filter fun m' => p m'.sender) = keptOne.toList :=
            List.filter_eq_self.mpr fun m' hm' => by rw [hkept m' hm', hp]
          have hout : (sent.filter fun a => p a.recipient) = sent :=
            List.filter_eq_self.mpr fun a ha => by rw [hsent a ha, hp]
          rw [List.filter_cons_of_pos (p := fun m : AlarmClockSub α => p m.sender) hp,
            processAlarmClock, hvisit, ih hprocess, hone, hout]
          rfl
      | false =>
          have hone : (keptOne.toList.filter fun m' => p m'.sender) = [] :=
            List.filter_eq_nil_iff.mpr fun m' hm' => by simp [hkept m' hm', hp]
          have hout : (sent.filter fun a => p a.recipient) = [] :=
            List.filter_eq_nil_iff.mpr fun a ha => by simp [hsent a ha, hp]
          rw [List.filter_cons_of_neg (p := fun m : AlarmClockSub α => p m.sender) (by simp [hp]),
            ih hprocess, hone, hout]
          rfl

theorem step_eob2 {txtim : UInt64} {out : List (Alarm α)}
    (h : step boost timer (.eob2 txtim) = some (timer', out)) :
    step boost (timer.only p) (.eob2 txtim) =
      some (timer'.only p, out.filter fun a => p a.recipient) := by
  dsimp only [step] at h ⊢
  split at h
  next hvalid =>
    obtain ⟨⟨alarmList, out'⟩, hprocess, hlast⟩ := Option.bind_eq_some_iff.mp h
    obtain ⟨rfl, rfl⟩ := Prod.mk.inj (Option.some.inj hlast)
    rw [if_pos hvalid]
    exact Option.bind_eq_some_iff.mpr ⟨_, processAlarmClock_filter hprocess, rfl⟩
  next => cases h

theorem subscribe_sender {m m' : AlarmClockSub α} {tim : Time}
    (h : (if tim.isValid then m.adjustToCurrentTime boost tim else some m) = some m') :
    m'.sender = m.sender := by
  split at h
  next => exact adjust_sender h
  next => exact congrArg _ (Option.some.inj h).symm

/-- Nobody joins the list in an update. -/
theorem processAlarmClock_senders {q : α → Prop} {currtim : Time}
    {alarmList kept : List (AlarmClockSub α)} (hq : ∀ m ∈ alarmList, q m.sender)
    {out : List (Alarm α)} (h : processAlarmClock boost currtim alarmList = some (kept, out)) :
    ∀ m ∈ kept, q m.sender := by
  induction alarmList generalizing kept out with
  | nil =>
      cases h
      simp
  | cons m alarmList ih =>
      obtain ⟨hm, hlist⟩ := List.forall_mem_cons.mp hq
      rw [processAlarmClock] at h
      obtain ⟨⟨keptOne, sent⟩, hvisit, hrest⟩ := Option.bind_eq_some_iff.mp h
      obtain ⟨⟨keptRest, outRest⟩, hprocess, hlast⟩ := Option.bind_eq_some_iff.mp hrest
      obtain ⟨rfl, -⟩ := Prod.mk.inj (Option.some.inj hlast)
      intro m' hm'
      rcases List.mem_append.mp hm' with hm' | hm'
      · rw [(visit_sender hvisit).1 m' hm']
        exact hm
      · exact ih hlist hprocess m' hm'

theorem step_alarmSub {m : AlarmClockSub α} {out : List (Alarm α)} (hp : p m.sender = false)
    (h : step boost timer (.alarmSub m) = some (timer', out)) :
    timer'.only p = timer.only p ∧ out = [] := by
  dsimp only [step] at h
  obtain ⟨m', hadjust, hlast⟩ := Option.map_eq_some_iff.mp h
  obtain ⟨rfl, rfl⟩ := Prod.mk.inj hlast
  have hsender := subscribe_sender hadjust
  refine ⟨?_, rfl⟩
  simp [Timer.only, hsender, hp]

/-- **Subscriptions do not get in each other's way**: over a run. -/
theorem own_trace {es : List (Event α)} (hother : ∀ m, .alarmSub m ∈ es → p m.sender = false)
    {r : Timer α × List (Alarm α)} (hrun : run (step boost) timer es = some r) :
    own p (trace (step boost) timer es) =
      own p (trace (step boost) (timer.only p) ((times es).map .eob2)) := by
  induction es generalizing timer r with
  | nil => rfl
  | cons e es ih =>
      obtain ⟨s, o, os, hstep, hrest, -⟩ := run_cons.mp hrun
      have hlater := ih (fun m hm => hother m (List.mem_cons_of_mem e hm)) hrest
      cases e with
      | eob2 txtim =>
          rw [times, List.map_cons, trace, trace, hstep, step_eob2 hstep]
          simp only [own, hlater, List.filter_filter, Bool.and_self]
      | alarmSub m =>
          obtain ⟨hsame, rfl⟩ := step_alarmSub (hother m List.mem_cons_self) hstep
          rw [times, trace, hstep, ← hsame, ← hlater]
          rfl

end Alone

end KasparHft.Mtim
