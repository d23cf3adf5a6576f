import KasparHft.LockFreeMPSCRuns

/-!
# The wakeup of the lock-free mailbox

Both sides write, then read what the other writes: the consumer arms `parked_` and looks at the
ring again, a producer publishes and looks at `parked_`.  In whatever order they do, a consumer
that waits at a ring with an item to pop has a producer that is about to notify it.
-/

namespace KasparHft.LockFreeMPSC

open Machine

variable {τ α : Type*}

/-- The item at the next position to be popped is published. -/
def State.Ready (s : State τ α) : Prop :=
  ∃ cell, s.ring.cell s.ring.dequeuePos = some cell ∧ cell.seq = sizeT (s.ring.dequeuePos + 1)

/-- How many steps a producer takes until it has notified, when it has published and has not seen
    that nobody is parked. -/
def Push.left : Push α → Option Nat
  | .check => some 3
  | .lock => some 2
  | .notify => some 1
  | _ => none

/-- The steps of a producer. -/
def stepsOf [DecidableEq τ] (t : τ) (events : List (Event τ α)) : Nat :=
  events.countP fun
    | .producer t' => t' = t
    | _ => false

/-! ### The consumer's flags -/

def Phase.parks : Phase → Bool
  | .again => true
  | _ => false

/-- From arming until the look again found an item, or the wait ended. -/
def Batch.parks : Batch α → Bool
  | .pop phase _ _ => phase.parks
  | .wait => true
  | .woken => true
  | .disarm _ => true
  | _ => false

def Phase.locks : Phase → Bool
  | .drain => false
  | _ => true

/-- The consumer is in its critical section. -/
def Batch.locks : Batch α → Bool
  | .pop phase _ _ => phase.locks
  | .arm => true
  | .woken => true
  | .unlock => true
  | .disarm _ => true
  | _ => false

/-- The flags tell where the consumer is, and its wait was not missed. -/
structure Watched (s : State τ α) : Prop where
  parked : s.parked = s.consumer.parks
  locked : s.locked = s.consumer.locks
  look : ∀ phase pos got, s.consumer = .pop phase (.look pos) got → pos = s.ring.dequeuePos
  call : s.consumer = .wait → s.notified = false → s.Ready →
    ∃ t d, (s.producers t).left = some d

/-! ### The ends of a `try_pop` -/

section Ends

variable {s s' : State τ α} {phase : Phase} {got : List α} {v : α} {o : List (Output τ α)}

/-- After these the consumer neither waits nor looks. -/
structure Elsewhere (s' : State τ α) : Prop where
  parked : s'.parked = s'.consumer.parks
  locked : s'.locked = s'.consumer.locks
  look : ∀ phase pos got, s'.consumer ≠ .pop phase (.look pos) got
  wait : s'.consumer ≠ .wait

theorem Elsewhere.watched (h : Elsewhere s') : Watched s' :=
  ⟨h.parked, h.locked, fun phase pos got hat => absurd hat (h.look phase pos got),
    fun hat => absurd hat h.wait⟩

theorem drained_elsewhere (hparked : s.parked = phase.parks)
    (hlocked : s.locked = phase.locks) (hphase : phase ≠ .again)
    (heq : s.drained phase got = (s', o)) : Elsewhere s' := by
  unfold State.drained at heq
  split at heq
  next => cases heq; exact ⟨hparked, hlocked, fun _ _ _ => nofun, nofun⟩
  next =>
    cases heq
    refine ⟨?_, rfl, fun _ _ _ => nofun, nofun⟩
    cases phase with
    | again => exact absurd rfl hphase
    | drain => exact hparked
    | after => exact hparked

theorem popped_elsewhere (hparked : s.parked = phase.parks)
    (hlocked : s.locked = phase.locks)
    (heq : s.popped phase got v = (s', o)) : Elsewhere s' := by
  cases phase with
  | again =>
      cases heq
      exact ⟨hparked, hlocked, fun _ _ _ => nofun, nofun⟩
  | drain => exact drained_elsewhere hparked hlocked nofun heq
  | after => exact drained_elsewhere hparked hlocked nofun heq

/-- The consumer waits only after a look that found nothing. -/
theorem popFailed_watched (hparked : s.parked = phase.parks)
    (hlocked : s.locked = phase.locks) (hnone : ¬ s.Ready)
    (heq : s.popFailed phase got = (s', o)) : Watched s' := by
  cases phase with
  | again =>
      cases heq
      exact ⟨hparked, rfl, fun _ _ _ => nofun, fun _ _ hready => absurd hready hnone⟩
  | drain =>
      cases got with
      | nil => cases heq; exact Elsewhere.watched ⟨hparked, hlocked, fun _ _ _ => nofun, nofun⟩
      | cons v got =>
          cases heq
          exact Elsewhere.watched ⟨hparked, hlocked, fun _ _ _ => nofun, nofun⟩
  | after =>
      cases heq
      exact Elsewhere.watched ⟨hparked, rfl, fun _ _ _ => nofun, nofun⟩

end Ends

/-! ### A step keeps the watch -/

section Moves

variable [DecidableEq τ] {s s' : State τ α} {t : τ} {o : List (Output τ α)}

omit [DecidableEq τ] in
theorem cell_seq_modify {q q' : Ring α} {pos : Nat} {f : Cell α → Cell α}
    (hq : q.modifyCell pos f = some q') (hseq : ∀ cell, (f cell).seq = cell.seq) (p : Nat) :
    (q'.cell p).map Cell.seq = (q.cell p).map Cell.seq := by
  obtain ⟨cell, hcell, rfl⟩ := Option.map_eq_some_iff.mp hq
  change (q.buf.set (pos &&& q.mask) (f cell))[p &&& q.mask]?.map Cell.seq = _
  by_cases heq : p &&& q.mask = pos &&& q.mask
  · have hlt := (List.getElem?_eq_some_iff.mp hcell).1
    unfold Ring.cell at hcell ⊢
    rw [heq, List.getElem?_set_self hlt, hcell]
    exact congrArg some (hseq cell)
  · rw [List.getElem?_set_ne (Ne.symm heq)]
    rfl

/-- **A producer's move** while the consumer waits: it publishes and is to look at `parked_`, sees
    it, or notifies. -/
theorem PushMove.watched (hmove : PushMove s t s' o) (h : Watched s) : Watched s' := by
  have hparked : s.consumer = .wait → s.parked = true := fun hat => by
    rw [h.parked, hat]
    rfl
  -- a move that leaves what is ready leaves a producer that is to notify, unless it was this one
  have hkeep : ∀ {at_ : Push α}, s.consumer = .wait → s.notified = false → s.Ready →
      ((s.producers t).left = none ∨ ∃ d, at_.left = some d) →
      ∃ t' d, (Function.update s.producers t at_ t').left = some d := by
    rintro at_ hwait hnotified hready (hnone | ⟨d, hd⟩)
    · obtain ⟨t', d, hd⟩ := h.call hwait hnotified hready
      have hne : t' ≠ t := by
        rintro rfl
        cases hnone.symm.trans hd
      exact ⟨t', d, by rwa [Function.update_of_ne hne]⟩
    · exact ⟨t, d, by rwa [Function.update_self]⟩
  have hset : ∀ {at_ : Push α}, ((s.producers t).left = none ∨ ∃ d, at_.left = some d) →
      Watched (s.setProducer t at_) := fun hor =>
    ⟨h.parked, h.locked, h.look, fun hwait hnotified hready => hkeep hwait hnotified hready hor⟩
  cases hmove with
  | load x hat => exact hset (.inl (congrArg Push.left hat))
  | free x pos cell hat hcell hdif => exact hset (.inl (congrArg Push.left hat))
  | full x pos cell hat hcell hdif => exact hset (.inl (congrArg Push.left hat))
  | late x pos hat => exact hset (.inl (congrArg Push.left hat))
  | loses x pos hat => exact hset (.inl (congrArg Push.left hat))
  | wins x pos hat hpos =>
      exact ⟨h.parked, h.locked, h.look, fun hwait hnotified hready =>
        hkeep hwait hnotified hready (.inl (congrArg Push.left hat))⟩
  | writes x pos ring hat hring =>
      have hseq := cell_seq_modify hring (fun _ => rfl)
      obtain ⟨_, -, rfl⟩ := modifyCell_eq_some hring
      refine ⟨h.parked, h.locked, h.look, fun hwait hnotified ⟨cell, hcell, hnumber⟩ =>
        hkeep hwait hnotified ?_ (.inl (congrArg Push.left hat))⟩
      have hsame := (hseq s.ring.dequeuePos).symm.trans (congrArg (Option.map Cell.seq) hcell)
      obtain ⟨cell', hcell', heq⟩ := Option.map_eq_some_iff.mp hsame
      exact ⟨cell', hcell', heq.trans hnumber⟩
  | publishes x pos ring hat hring =>
      obtain ⟨_, -, rfl⟩ := modifyCell_eq_some hring
      refine ⟨h.parked, h.locked, h.look, fun _ _ _ => ⟨t, 3, ?_⟩⟩
      change (Function.update s.producers t .check t).left = some 3
      rw [Function.update_self]
      rfl
  | seesParked hat _ => exact hset (.inr ⟨2, rfl⟩)
  | returns hat hnobody =>
      exact ⟨h.parked, h.locked, h.look, fun hwait => nomatch hnobody.symm.trans (hparked hwait)⟩
  | locks hat _ => exact hset (.inr ⟨1, rfl⟩)
  | notifies hat =>
      refine ⟨h.parked, h.locked, h.look, fun hwait hnotified => ?_⟩
      have hat' : s.consumer = .wait := hwait
      rw [hat'] at hnotified
      cases hnotified

omit [DecidableEq τ] in
/-- **The consumer's move**: it waits only after a look that found nothing. -/
theorem BatchMove.watched (hmove : BatchMove s s' o) (h : Watched s) : Watched s' := by
  have hparked := h.parked
  have hlocked := h.locked
  cases hmove with
  | nothing phase pos got cell hat hcell hdif s' o heq =>
      have hpos := h.look phase pos got hat
      rw [hat] at hparked hlocked
      refine popFailed_watched hparked hlocked ?_ heq
      rintro ⟨cell', hcell', hseq⟩
      rw [← hpos] at hcell' hseq
      cases hcell.symm.trans hcell'
      rw [hseq, signedDif_self] at hdif
      exact absurd hdif (Int.lt_irrefl 0)
  | releases phase pos got v ring hat hring s' o heq =>
      rw [hat] at hparked hlocked
      exact (popped_elsewhere (s := { s with ring := ring }) hparked hlocked heq).watched
  | disarms got hat s' o heq =>
      rw [hat] at hlocked
      refine (drained_elsewhere (s := { s with parked := false }) ?_ ?_ ?_ heq).watched
      · rfl
      · exact hlocked
      · nofun
  | load phase got hat =>
      rw [hat] at hparked hlocked
      refine ⟨hparked, hlocked, fun _ _ _ hlook => ?_, nofun⟩
      cases hlook
      rfl
  | loses phase pos got hat =>
      rw [hat] at hparked hlocked
      refine ⟨hparked, hlocked, fun _ _ _ hlook => ?_, nofun⟩
      cases hlook
      rfl
  | ready phase pos got cell hat hcell hdif =>
      rw [hat] at hparked hlocked
      exact ⟨hparked, hlocked, fun _ _ _ => nofun, nofun⟩
  | late phase pos got hat =>
      rw [hat] at hparked hlocked
      exact ⟨hparked, hlocked, fun _ _ _ => nofun, nofun⟩
  | takes phase pos got hat hpos =>
      rw [hat] at hparked hlocked
      exact ⟨hparked, hlocked, fun _ _ _ => nofun, nofun⟩
  | reads phase pos got cell hat hcell =>
      rw [hat] at hparked hlocked
      exact ⟨hparked, hlocked, fun _ _ _ => nofun, nofun⟩
  | calls hat | locks hat | arms hat | wakes hat | unparks hat | unlocks hat =>
      rw [hat] at hparked hlocked
      refine ⟨?_, ?_, fun _ _ _ => nofun, nofun⟩ <;> first | rfl | assumption

/-- **Every step keeps the watch.** -/
theorem Watched.step {e : Event τ α} (h : Watched s) (hstep : threadStep s e = some (s', o)) :
    Watched s' := by
  rcases threadStep_cases hstep with ⟨t, x, rfl, hat, rfl, rfl⟩ | ⟨t, -, hmove⟩ | ⟨-, hmove⟩
  · refine ⟨h.parked, h.locked, h.look, fun hwait hnotified hready => ?_⟩
    obtain ⟨t', d, hd⟩ := h.call hwait hnotified hready
    have hne : t' ≠ t := by
      rintro rfl
      rw [hat] at hd
      cases hd
    refine ⟨t', d, ?_⟩
    change (Function.update s.producers t (.load x) t').left = some d
    rwa [Function.update_of_ne hne]
  · exact hmove.watched h
  · exact hmove.watched h

theorem watched_run {q : Ring α} {events : List (Event τ α)} {out : List (Output τ α)}
    (hrun : run threadStep ({ ring := q } : State τ α) events = some (s, out)) : Watched s :=
  run_invariant (I := fun _ _ s => Watched s)
    ⟨rfl, rfl, fun _ _ _ hat => (by cases hat), fun hat => (by cases hat)⟩
    (fun _ _ _ _ _ _ h hstep => h.step hstep) hrun

/-! ### The call -/

/-- The consumer waits, armed, and its mutex is free. -/
structure Parked (s : State τ α) : Prop where
  consumer : s.consumer = .wait
  parked : s.parked = true
  locked : s.locked = false

theorem stepsOf_concat (t : τ) (es : List (Event τ α)) (e : Event τ α) :
    stepsOf t (es ++ [e]) = stepsOf t es + stepsOf t [e] := List.countP_append

theorem PushMove.parked (hmove : PushMove s t s' o) (h : Parked s) : Parked s' := by
  obtain ⟨hconsumer, -, -, hparked, hlocked⟩ := hmove.frame
  exact ⟨hconsumer.trans h.consumer, hparked.trans h.parked, hlocked.trans h.locked⟩

theorem PushMove.notified (hmove : PushMove s t s' o) (h : Parked s)
    (hnotified : s.notified = true) : s'.notified = true := by
  cases hmove with
  | notifies hat => rw [h.consumer]
  | _ => exact hnotified

theorem PushMove.other (hmove : PushMove s t s' o) {t' : τ} (hne : t' ≠ t) :
    s'.producers t' = s.producers t' := by
  cases hmove <;> exact Function.update_of_ne hne ..

/-- A step of a producer that is to notify. -/
theorem PushMove.left (hmove : PushMove s t s' o) (h : Parked s) {d : Nat}
    (hleft : (s.producers t).left = some d) :
    (d = 1 ∧ s'.notified = true) ∨ ∃ d', (s'.producers t).left = some d' ∧ d = d' + 1 := by
  have hnone : ∀ {at_ : Push α}, s.producers t = at_ → at_.left = none → False := by
    rintro at_ rfl hat
    cases hat.symm.trans hleft
  have hset : ∀ {at_ : Push α} {d : Nat}, at_.left = some d →
      ((s.setProducer t at_).producers t).left = some d := by
    intro at_ d hd
    change (Function.update s.producers t at_ t).left = some d
    rwa [Function.update_self]
  cases hmove with
  | seesParked hat _ => rw [hat] at hleft; cases hleft; exact .inr ⟨2, hset rfl, rfl⟩
  | locks hat _ => rw [hat] at hleft; cases hleft; exact .inr ⟨1, hset rfl, rfl⟩
  | notifies hat =>
      rw [hat] at hleft
      cases hleft
      exact .inl ⟨rfl, by rw [h.consumer]⟩
  | returns _ hnobody => cases hnobody.symm.trans h.parked
  | load x hat => exact (hnone hat rfl).elim
  | free x pos cell hat _ _ => exact (hnone hat rfl).elim
  | full x pos cell hat _ _ => exact (hnone hat rfl).elim
  | late x pos hat => exact (hnone hat rfl).elim
  | wins x pos hat _ => exact (hnone hat rfl).elim
  | loses x pos hat => exact (hnone hat rfl).elim
  | writes x pos ring hat _ => exact (hnone hat rfl).elim
  | publishes x pos ring hat _ => exact (hnone hat rfl).elim

/-- It can always take its step. -/
theorem exists_pushStep (h : Parked s) {d : Nat} (hleft : (s.producers t).left = some d) :
    ∃ s' o, s.pushStep t = some (s', o) := by
  unfold State.pushStep
  generalize s.producers t = at_ at hleft
  cases at_ with
  | check => exact ⟨_, _, if_pos h.parked⟩
  | lock => exact ⟨_, _, if_neg (Bool.eq_false_iff.mp h.locked)⟩
  | notify => exact ⟨_, _, rfl⟩
  | _ => cases hleft

theorem notifies_alone (h : Parked s) {d : Nat} (hleft : (s.producers t).left = some d) :
    ∃ s' out, run threadStep s (List.replicate d (.producer t)) = some (s', out) ∧
      s'.notified = true := by
  induction d generalizing s with
  | zero =>
      generalize s.producers t = at_ at hleft
      cases at_ <;> cases hleft
  | succ d ih =>
      obtain ⟨s₁, o, hstep⟩ := exists_pushStep h hleft
      have hmove := pushStep_moves hstep
      rw [List.replicate_succ]
      rcases hmove.left h hleft with ⟨hd, hnotified⟩ | ⟨d', hleft', hd⟩
      · cases Nat.succ.inj hd
        exact ⟨s₁, o, (run_one s (Event.producer t)).trans hstep, hnotified⟩
      · cases Nat.succ.inj hd
        obtain ⟨s', out, hrun, hnotified⟩ := ih (hmove.parked h) hleft'
        exact ⟨s', o ++ out, run_cons.mpr ⟨s₁, o, out, hstep, hrun, rfl⟩, hnotified⟩

/-- **In any order of the producers' steps** the one that is to notify does, in as many of its own
    as it has left. -/
theorem notifies_among (h : Parked s) {d : Nat} (hleft : (s.producers t).left = some d)
    {more : List (Event τ α)} (hmore : ∀ e ∈ more, e.Producers) {out : List (Output τ α)}
    (hrun : run threadStep s more = some (s', out)) (hsteps : d ≤ stepsOf t more) :
    s'.notified = true := by
  have hinv := run_induction (P := fun _ e => e.Producers)
    (I := fun es _ s' => Parked s' ∧ (s'.notified = true ∨
      ∃ d', (s'.producers t).left = some d' ∧ d' + stepsOf t es ≤ d))
    ⟨h, .inr ⟨d, hleft, Nat.le_refl _⟩⟩ ?_ (allSteps_of_forall hmore s) hrun
  · rcases hinv.2 with hnotified | ⟨d', hleft', hd⟩
    · exact hnotified
    · generalize s'.producers t = at_ at hleft'
      cases at_ <;> cases hleft' <;> omega
  · rintro es os s₁ e s₂ o ⟨h₁, hleft₁⟩ he hstep
    rcases threadStep_cases hstep with ⟨t', x, rfl, hat, rfl, rfl⟩ | ⟨t', he', hmove⟩ | ⟨hno, -⟩
    · refine ⟨⟨h₁.consumer, h₁.parked, h₁.locked⟩, hleft₁.imp id fun ⟨d', hleft', hd⟩ => ?_⟩
      have hne : t ≠ t' := by
        rintro rfl
        rw [hat] at hleft'
        cases hleft'
      refine ⟨d', ?_, by rwa [stepsOf_concat]⟩
      change (Function.update s₁.producers t' (.load x) t).left = some d'
      rwa [Function.update_of_ne hne]
    · refine ⟨hmove.parked h₁, ?_⟩
      rcases hleft₁ with hnotified | ⟨d', hleft', hd⟩
      · exact .inl (hmove.notified h₁ hnotified)
      · rw [stepsOf_concat]
        by_cases heq : t' = t
        · subst heq
          have hone : stepsOf t' [e] ≤ 1 := List.countP_le_length
          refine (hmove.left h₁ hleft').imp And.right fun ⟨d₂, hleft₂, hd₂⟩ => ⟨d₂, hleft₂, ?_⟩
          omega
        · have hzero : stepsOf t [e] = 0 := by rcases he' with rfl | rfl <;> simp [stepsOf, heq]
          exact .inr ⟨d', (hmove.other (Ne.symm heq)).symm ▸ hleft', by omega⟩
    · exact absurd he hno

end Moves

/-- **No wakeup is missed**: when the consumer waits, nobody has notified it and there is an item to
    pop, a producer is at most three steps of its own from notifying it, can take them, and has
    notified it after them in whatever order the producers take their steps. -/
theorem wakeup_not_missed [DecidableEq τ] {q : Ring α} {events : List (Event τ α)}
    {out : List (Output τ α)} {s : State τ α}
    (hrun : run threadStep ({ ring := q } : State τ α) events = some (s, out))
    (hwait : s.consumer = .wait) (hnotified : s.notified = false) (hready : s.Ready) :
    ∃ t d, d ≤ 3 ∧
      (∃ s' out', run threadStep s (List.replicate d (.producer t)) = some (s', out') ∧
        s'.notified = true) ∧
      ∀ more s' out', (∀ e ∈ more, e.Producers) → run threadStep s more = some (s', out') →
        d ≤ stepsOf t more → s'.notified = true := by
  have h := watched_run hrun
  obtain ⟨t, d, hleft⟩ := h.call hwait hnotified hready
  have hparked : Parked s := by
    refine ⟨hwait, ?_, ?_⟩
    · rw [h.parked, hwait]
      rfl
    · rw [h.locked, hwait]
      rfl
  refine ⟨t, d, ?_, notifies_alone hparked hleft, fun more s' out' hmore hrun' hsteps =>
    notifies_among hparked hleft hmore hrun' hsteps⟩
  generalize s.producers t = at_ at hleft
  cases at_ <;> cases hleft <;> decide

/-- The producer of the first item publishes it while the consumer waits. -/
theorem interleaving_notified : ∃ s out,
    run threadStep ({ ring := twoCells } : State Bool Nat) (interleaving.take 22) = some (s, out) ∧
      ∃ t d, d ≤ 3 ∧
        (∃ s' out', run threadStep s (List.replicate d (.producer t)) = some (s', out') ∧
          s'.notified = true) ∧
        ∀ more s' out', (∀ e ∈ more, e.Producers) → run threadStep s more = some (s', out') →
          d ≤ stepsOf t more → s'.notified = true := by
  obtain ⟨s, out, hrun, hat⟩ := exists_reached (interleaving.take 22)
    (fun s _ => s.consumer = .wait ∧ s.notified = false ∧
      s.ring.cell s.ring.dequeuePos = some ⟨sizeT (s.ring.dequeuePos + 1), 20⟩)
    (by decide +kernel)
  obtain ⟨hwait, hnotified, hcell⟩ := of_decide_eq_true hat
  exact ⟨s, out, hrun, wakeup_not_missed hrun hwait hnotified ⟨_, hcell, rfl⟩⟩

end KasparHft.LockFreeMPSC
