import KasparHft.ActorMailbox

/-!
# An actor and its callers do not block each other

The mailbox is a `BQueue` or a `BQueueBatched`: a push into it does not wait.  The thread that
holds `fast_send_mutex` leaves it in at most three steps of its own, and while nobody holds it
every thread in a call can go on.  Left alone, the thread of the actor handles what was put into
the mailbox and then waits for more, or ends.

A handler that replies to a message without a sender fails an assertion, `no return address`, so
what is sent without a sender is assumed to be answered by nothing.
-/

namespace KasparHft.ActorThreads

open Machine

variable {τ A T β H σ : Type} {n : ℕ}

/-- No handler replies to the message. -/
def Class.Silent (cls : Class A T β H σ) (m : Message T β) : Prop :=
  ∀ f user e, e.msg = m → (cls.perform f user e).replies = []

/-- The step that a thread takes by itself. -/
def Thread.event : Thread τ → Event τ A T β
  | .loop => .loop
  | .caller t => .caller t

section Mailbox

variable [Boost.{0}]

/-! ### The mutex is held by a thread that is inside -/

def Occupied (s : State n τ A T β H σ) : Prop := ∀ w, s.mutex = some w → s.inside w ≠ none

section Steps

variable {cls : Class A T β H σ} {s s' : State n τ A T β H σ} {out o : List (Output τ A T β)}
  {e : Envelope A T β} {t : τ} {batched : Bool} {user₀ : σ}

theorem Occupied.keep (h : Occupied s) (hmutex : s'.mutex = s.mutex)
    (hinside : ∀ w, s.inside w ≠ none → s'.inside w ≠ none) : Occupied s' :=
  fun w hw => hinside w (h w (hmutex ▸ hw))

theorem Occupied.setCaller [DecidableEq τ] (h : Occupied s) {c : Caller A T β H σ}
    (hmutex : s'.mutex = s.mutex) (hinside : s'.inside = (s.setCaller t c).inside)
    (hc : (s.callers t).inside? ≠ none → c.inside? ≠ none) : Occupied s' := by
  refine h.keep hmutex fun w hw => ?_
  rw [hinside, inside_setCaller]
  split
  next heq =>
    rw [heq] at hw
    exact hc hw
  next => exact hw

theorem Occupied.loop (h : Occupied s) (hmutex : s'.mutex = s.mutex)
    (hcallers : s'.callers = s.callers)
    (hloop : s.loop.inside? ≠ none → s'.loop.inside? ≠ none) : Occupied s' := by
  refine h.keep hmutex fun w hw => ?_
  cases w with
  | loop => exact hloop hw
  | caller t =>
      unfold State.inside
      rw [hcallers]
      exact hw

theorem CallerMove.occupied [DecidableEq T] [DecidableEq τ] (h : Occupied s)
    (hmove : CallerMove cls s t s' o) : Occupied s' := by
  cases hmove with
  | stamps e hat => exact h.setCaller rfl rfl fun hin => absurd (by rw [hat]; rfl) hin
  | pushes e hat =>
      exact h.setCaller (c := .out) rfl rfl fun hin => absurd (by rw [hat]; rfl) hin
  | locks e hat hfree =>
      intro w hw
      cases hw
      have hinside : (s.setCaller t (.inside (.locked e))).inside (.caller t) = some (.locked e) :=
        (inside_setCaller s t _ _).trans (if_pos rfl)
      exact fun hnone => by cases hinside.symm.trans hnone
  | refused e hat => exact fun w hw => by cases hw
  | enters e hat => exact h.setCaller rfl rfl fun _ => Option.some_ne_none _
  | finishes e f cache user hat s₁ o hfinish =>
      obtain ⟨hloop, -, hmutex, hcallers, -⟩ := finish_frame hfinish
      have hframe : Occupied s₁ :=
        h.loop hmutex hcallers fun hin => by rwa [hloop]
      exact hframe.setCaller rfl rfl fun _ => Option.some_ne_none _
  | returns e hat => exact fun w hw => by cases hw

theorem LoopMove.occupied [DecidableEq T] (h : Occupied s) (hmove : LoopMove cls s s' o) :
    Occupied s' := by
  cases hmove with
  | pops q e hat hheld => exact h.loop rfl rfl fun hin => absurd (by rw [hat]; rfl) hin
  | drains hat hheld => exact h.loop rfl rfl fun hin => absurd (by rw [hat]; rfl) hin
  | goesOn hat => exact h.loop rfl rfl fun hin => absurd (by rw [hat]; rfl) hin
  | takes e rest hat => exact h.loop rfl rfl fun hin => absurd (by rw [hat]; rfl) hin
  | locks e rest hat hfree =>
      intro w hw
      cases hw
      exact Option.some_ne_none _
  | enters e rest hat => exact h.loop rfl rfl fun _ => Option.some_ne_none _
  | finishes e rest f cache user hat s₁ o hfinish =>
      obtain ⟨-, -, hmutex, hcallers, -⟩ := finish_frame hfinish
      exact h.loop hmutex hcallers fun _ => Option.some_ne_none _
  | unlocks e rest hat => exact fun w hw => by cases hw
  | stops e rest hat => exact h.loop rfl rfl fun hin => absurd (by rw [hat]; rfl) hin
  | stays e rest hat hid => exact h.loop rfl rfl fun hin => absurd (by rw [hat]; rfl) hin
  | ends hat => exact h.loop rfl rfl fun hin => absurd (by rw [hat]; rfl) hin

theorem Occupied.step [DecidableEq T] [DecidableEq τ] {ev : Event τ A T β} (h : Occupied s)
    (hs : threadStep batched cls s ev = some (s', o)) : Occupied s' := by
  rcases threadStep_cases hs with ⟨t, m, -, rfl, -⟩ | ⟨t, e, hat, -, rfl, -⟩ |
    ⟨t, e, hat, rfl, -⟩ | ⟨t, hmove⟩ | hmove
  · exact h
  · exact h.setCaller rfl rfl fun hin => absurd (by rw [hat]; rfl) hin
  · exact h.setCaller rfl rfl fun hin => absurd (by rw [hat]; rfl) hin
  · exact hmove.occupied h
  · exact hmove.occupied h

/-- What holds in a state that was reached, where nothing sent without a sender is answered. -/
structure Reached [DecidableEq T] [DecidableEq τ] (cls : Class A T β H σ) (user₀ : σ)
    (s : State n τ A T β H σ) (out : List (Output τ A T β)) : Prop where
  serial : Serial cls user₀ s out
  mail : Mail cls s out
  occupied : Occupied s
  silent : ∀ e ∈ pushes out, e.sender = none → cls.Silent e.msg

/-! ### Replies can be sent -/

theorem exists_reply (ms : List (Message T β))
    (h : s.usingFastSend = true ∨ s.replyTo ≠ none ∨ ms = []) :
    ∃ s' o, s.reply ms = some (s', o) := by
  induction ms generalizing s with
  | nil => exact ⟨_, _, rfl⟩
  | cons m ms ih =>
      unfold State.reply
      by_cases hfast : s.usingFastSend = true
      · rw [if_pos hfast]
        exact ih (.inl hfast)
      · rw [if_neg hfast]
        rcases h with hyes | hto | hnil
        · exact absurd hyes hfast
        · obtain ⟨a, ha⟩ := Option.ne_none_iff_exists'.mp hto
          obtain ⟨s', o, hrest⟩ := ih (.inr (.inl hto))
          rw [ha, hrest]
          exact ⟨_, _, rfl⟩
        · cases hnil

theorem exists_finish (cls : Class A T β H σ) (who : Thread τ) (e : Envelope A T β)
    (f : Option H) (cache : Cache H) (user : σ)
    (h : s.usingFastSend = true ∨ s.replyTo ≠ none ∨ (cls.perform f user e).replies = []) :
    ∃ s' o, s.finish cls who e f cache user = some (s', o) := by
  obtain ⟨s', o, hreply⟩ :=
    exists_reply (s := s.write cache (cls.perform f user e)) (cls.perform f user e).replies h
  unfold State.finish
  dsimp only
  rw [hreply]
  exact ⟨_, _, rfl⟩

section Reached

variable [DecidableEq T] [DecidableEq τ]

theorem Reached.step {ev : Event τ A T β} (h : Reached cls user₀ s out)
    (hids : Function.Injective cls.idOf) (hs : threadStep batched cls s ev = some (s', o))
    (hpushes : pushes o = []) : Reached cls user₀ s' (out ++ o) where
  serial := h.serial.step hids hs
  mail := h.mail.step hs
  occupied := h.occupied.step hs
  silent := by
    rw [pushes_append, hpushes, List.append_nil]
    exact h.silent

/-- A message that the thread of the actor handles is answered only where it has a sender. -/
theorem Reached.answers (h : Reached cls user₀ s out) (he : e ∈ s.loop.hand) (f : Option H)
    (user : σ) : e.sender ≠ none ∨ (cls.perform f user e).replies = [] := by
  by_cases hsender : e.sender = none
  · right
    have hmem : e.unmarked ∈ (pushes out).map Envelope.unmarked := by
      rw [h.mail.kept]
      exact List.mem_map_of_mem
        (List.mem_append_right _ (List.mem_append_left _ he))
    obtain ⟨e', he', heq⟩ := List.mem_map.mp hmem
    have hmsg : e'.unmarked.msg = e.unmarked.msg := congrArg Envelope.msg heq
    have hsender' : e'.unmarked.sender = e.unmarked.sender := congrArg Envelope.sender heq
    exact h.silent e' he' (hsender'.trans hsender) f user e hmsg.symm
  · exact .inl hsender

/-! ### The holder of the mutex leaves it -/

/-- The steps that a thread inside the mutex has left there. -/
def Inside.left : Inside A T β H σ → ℕ
  | .locked _ => 3
  | .running _ _ _ _ => 2
  | .ran _ => 1

/-- The thread of the actor, inside, takes a step and is further. -/
theorem Reached.loop_inside (h : Reached cls user₀ s out) (batched : Bool)
    {at_ : Inside A T β H σ} (hat : s.inside .loop = some at_) :
    ∃ s' o, s.loopStep batched cls = some (s', o) ∧ pushes o = [] ∧
      (s'.mutex = none ∨ ∃ at', s'.inside .loop = some at' ∧ at'.left + 1 = at_.left) := by
  have hok := h.serial.inside .loop at_ hat
  obtain ⟨rest, hloop⟩ := loop_of_inside hat
  unfold State.loopStep
  rw [hloop]
  cases at_ with
  | locked e => exact ⟨_, _, rfl, rfl, .inr ⟨_, rfl, rfl⟩⟩
  | running e f cache user =>
      obtain ⟨⟨-, hto⟩, -⟩ := hok
      have hhand : e ∈ s.loop.hand := by
        rw [hloop]
        exact List.mem_cons_self
      have hanswers := h.answers hhand f user
      rw [← hto] at hanswers
      obtain ⟨s₁, o, hfinish⟩ := exists_finish cls .loop e f cache user (.inr hanswers)
      obtain ⟨-, -, -, -, hpushes, -⟩ := finish_frame hfinish
      dsimp only
      rw [hfinish]
      exact ⟨_, _, rfl, hpushes, .inr ⟨_, rfl, rfl⟩⟩
  | ran e => exact ⟨_, _, rfl, rfl, .inl rfl⟩

/-- A caller inside takes a step and is further. -/
theorem Reached.caller_inside (h : Reached cls user₀ s out) {at_ : Inside A T β H σ}
    (hat : s.inside (.caller t) = some at_) :
    ∃ s' o, s.callerStep cls t = some (s', o) ∧ pushes o = [] ∧
      (s'.mutex = none ∨ ∃ at', s'.inside (.caller t) = some at' ∧ at'.left + 1 = at_.left) := by
  have hok := h.serial.inside (.caller t) at_ hat
  have hnew : ∀ (s₁ : State n τ A T β H σ) at',
      (s₁.setCaller t (.inside at')).inside (.caller t) = some at' :=
    fun s₁ at' => (inside_setCaller s₁ t _ _).trans (if_pos rfl)
  unfold State.callerStep
  rw [caller_of_inside hat]
  cases at_ with
  | locked e =>
      dsimp only
      split
      · exact ⟨_, _, rfl, rfl, .inl rfl⟩
      · exact ⟨_, _, rfl, rfl, .inr ⟨_, hnew s _, rfl⟩⟩
  | running e f cache user =>
      obtain ⟨⟨hfast, -⟩, -⟩ := hok
      obtain ⟨s₁, o, hfinish⟩ := exists_finish cls (.caller t) e f cache user (.inl hfast)
      obtain ⟨-, -, -, -, hpushes, -⟩ := finish_frame hfinish
      dsimp only
      rw [hfinish]
      exact ⟨_, _, rfl, hpushes, .inr ⟨_, hnew s₁ _, rfl⟩⟩
  | ran e => exact ⟨_, _, rfl, rfl, .inl rfl⟩

theorem Reached.inside_step (h : Reached cls user₀ s out) (batched : Bool) {who : Thread τ}
    {at_ : Inside A T β H σ} (hat : s.inside who = some at_) :
    ∃ s' o, threadStep batched cls s who.event = some (s', o) ∧ pushes o = [] ∧
      (s'.mutex = none ∨ ∃ at', s'.inside who = some at' ∧ at'.left + 1 = at_.left) := by
  cases who with
  | loop => exact h.loop_inside batched hat
  | caller t => exact h.caller_inside hat

theorem Reached.leaves (h : Reached cls user₀ s out) (batched : Bool)
    (hids : Function.Injective cls.idOf) {who : Thread τ} {d : ℕ} {at_ : Inside A T β H σ}
    (hat : s.inside who = some at_) (hd : at_.left = d) :
    ∃ k ≤ d, ∃ s' o, run (threadStep batched cls) s (List.replicate k who.event) = some (s', o) ∧
      s'.mutex = none := by
  induction d generalizing s out at_ with
  | zero => cases at_ <;> cases hd
  | succ d ih =>
      obtain ⟨s₁, o₁, hs, hpushes, hfree | ⟨at', hat', hleft⟩⟩ := h.inside_step batched hat
      · exact ⟨1, Nat.succ_le_succ d.zero_le, s₁, o₁, (run_one s _).trans hs, hfree⟩
      · obtain ⟨k, hk, s', o, hrun, hfree⟩ :=
          ih (h.step hids hs hpushes) hat' (Nat.succ.inj (hleft.trans hd))
        refine ⟨k + 1, Nat.succ_le_succ hk, s', o₁ ++ o, ?_, hfree⟩
        exact run_cons.mpr ⟨s₁, o₁, o, hs, hrun, rfl⟩

/-! ### The thread of the actor, left alone -/

/-- The steps that the thread of the actor has left for what it has in hand, at most. -/
def Loop.work : Loop A T β H σ → ℕ
  | .idle => 0
  | .next batch => 1 + 7 * batch.length
  | .popped _ rest => 7 + 7 * rest.length
  | .inside at_ rest => 3 + at_.left + 7 * rest.length
  | .handled _ rest => 3 + 7 * rest.length
  | .stopping => 1
  | .ended => 0

def State.work (s : State n τ A T β H σ) : ℕ := s.loop.work + 9 * (BQueue.held s.msgq).length

omit [DecidableEq T] [DecidableEq τ] in
theorem work_lt (hheld : BQueue.held s'.msgq = BQueue.held s.msgq)
    (hloop : s'.loop.work < s.loop.work) : s'.work < s.work := by
  unfold State.work
  rw [hheld]
  exact Nat.add_lt_add_right hloop _

omit [DecidableEq τ] in
theorem left_enter (s : State n τ A T β H σ) : (s.enter cls e).left = 2 := rfl

omit [DecidableEq τ] in
theorem LoopMove.work (hmove : LoopMove cls s s' o) : s'.work < s.work := by
  cases hmove with
  | pops q e hat hheld =>
      unfold State.work
      rw [hat, hheld]
      simp only [Loop.work, List.length_nil, List.length_cons]
      omega
  | drains hat hheld =>
      have hpos := List.length_pos_of_ne_nil hheld
      unfold State.work
      rw [hat]
      simp only [Loop.work, BQueue.held_new, List.length_nil]
      omega
  | goesOn hat =>
      refine work_lt rfl ?_
      simp only [hat, Loop.work]
      omega
  | takes e rest hat =>
      refine work_lt rfl ?_
      simp only [hat, Loop.work, List.length_cons]
      omega
  | locks e rest hat hfree =>
      refine work_lt rfl ?_
      simp only [hat, Loop.work, Inside.left]
      omega
  | enters e rest hat =>
      refine work_lt rfl ?_
      simp only [hat, Loop.work, left_enter]
      simp only [Inside.left]
      omega
  | finishes e rest f cache user hat s₁ o hfinish =>
      obtain ⟨-, hmsgq, -⟩ := finish_frame hfinish
      refine work_lt (congrArg BQueue.held hmsgq) ?_
      simp only [hat, Loop.work, Inside.left]
      omega
  | unlocks e rest hat =>
      refine work_lt rfl ?_
      simp only [hat, Loop.work, Inside.left]
      omega
  | stops e rest hat =>
      refine work_lt rfl ?_
      simp only [hat, Loop.work]
      omega
  | stays e rest hat hid =>
      refine work_lt rfl ?_
      simp only [hat, Loop.work]
      omega
  | ends hat =>
      refine work_lt rfl ?_
      simp only [hat, Loop.work]
      omega

/-- The thread of the actor has ended, or waits for a message. -/
def State.Rests (s : State n τ A T β H σ) : Prop :=
  s.loop = .ended ∨ s.loop = .idle ∧ BQueue.held s.msgq = []

theorem Reached.loop_goes_on (h : Reached cls user₀ s out) (batched : Bool)
    (hfree : ∀ t, s.mutex ≠ some (.caller t)) (hbusy : ¬ s.Rests) :
    ∃ s' o, s.loopStep batched cls = some (s', o) := by
  rcases hat : s.inside .loop with _ | at_
  · unfold State.loopStep
    cases hloop : s.loop with
    | idle =>
        have hheld : BQueue.held s.msgq ≠ [] := fun hnil => hbusy (.inr ⟨hloop, hnil⟩)
        dsimp only
        split
        · rw [BQueue.popBatch_eq, if_neg hheld]
          exact ⟨_, _, rfl⟩
        · rcases BQueue.pop_eq s.msgq with ⟨-, hnil⟩ | ⟨q, e, hpop, -⟩
          · exact absurd hnil hheld
          · rw [hpop]
            exact ⟨_, _, rfl⟩
    | next batch =>
        cases batch with
        | nil => exact ⟨_, _, rfl⟩
        | cons e rest => exact ⟨_, _, rfl⟩
    | popped e rest =>
        have hnone : s.mutex = none := by
          rcases hmutex : s.mutex with _ | w
          · rfl
          · cases w with
            | loop => exact absurd hat (h.occupied .loop hmutex)
            | caller t => exact absurd hmutex (hfree t)
        dsimp only
        rw [if_pos hnone]
        exact ⟨_, _, rfl⟩
    | inside at_ rest =>
        unfold State.inside at hat
        rw [hloop] at hat
        cases hat
    | handled e rest =>
        dsimp only
        split
        · exact ⟨_, _, rfl⟩
        · exact ⟨_, _, rfl⟩
    | stopping => exact ⟨_, _, rfl⟩
    | ended => exact absurd (.inl hloop) hbusy
  · obtain ⟨s', o, hs, -⟩ := h.loop_inside batched hat
    exact ⟨s', o, hs⟩

omit [DecidableEq τ] in
theorem LoopMove.frame (hmove : LoopMove cls s s' o) : pushes o = [] ∧
    ∀ t, s'.mutex = some (.caller t) → s.mutex = some (.caller t) := by
  cases hmove with
  | pops q e hat hheld => exact ⟨rfl, fun _ => id⟩
  | drains hat hheld => exact ⟨rfl, fun _ => id⟩
  | goesOn hat => exact ⟨rfl, fun _ => id⟩
  | takes e rest hat => exact ⟨rfl, fun _ => id⟩
  | locks e rest hat hfree => exact ⟨rfl, fun _ hw => by cases hw⟩
  | enters e rest hat => exact ⟨rfl, fun _ => id⟩
  | finishes e rest f cache user hat s₁ o hfinish =>
      obtain ⟨-, -, hmutex, -, hpushes, -⟩ := finish_frame hfinish
      refine ⟨hpushes, fun t hw => ?_⟩
      rwa [← hmutex]
  | unlocks e rest hat => exact ⟨rfl, fun _ hw => by cases hw⟩
  | stops e rest hat => exact ⟨filterMap_deleted (fun _ => rfl) rest, fun _ => id⟩
  | stays e rest hat hid => exact ⟨rfl, fun _ => id⟩
  | ends hat => exact ⟨rfl, fun _ => id⟩

/-- Left alone, the thread comes to rest. -/
theorem Reached.rests (h : Reached cls user₀ s out) (batched : Bool)
    (hids : Function.Injective cls.idOf)
    (hfree : ∀ t, s.mutex ≠ some (.caller t)) :
    ∃ k ≤ s.work, ∃ s' o, run (threadStep batched cls) s (List.replicate k .loop) = some (s', o) ∧
      s'.Rests ∧ Mail cls s' (out ++ o) ∧ pushes o = [] := by
  induction hd : s.work using Nat.strong_induction_on generalizing s out with
  | _ d ih =>
      by_cases hrests : s.Rests
      · refine ⟨0, d.zero_le, s, [], rfl, hrests, ?_, rfl⟩
        rw [List.append_nil]
        exact h.mail
      · obtain ⟨s₁, o₁, hs⟩ := h.loop_goes_on batched hfree hrests
        have hmove := loopStep_moves hs
        have hwork : s₁.work < d := hd ▸ hmove.work
        obtain ⟨hpushes, hkeeps⟩ := hmove.frame
        have hstep : threadStep batched cls s .loop = some (s₁, o₁) := hs
        obtain ⟨k, hk, s', o, hrun, hrest, hmail, hnil⟩ :=
          ih s₁.work hwork (h.step hids hstep hpushes) (fun t hw => hfree t (hkeeps t hw)) rfl
        refine ⟨k + 1, (Nat.succ_le_succ hk).trans hwork, s', o₁ ++ o, ?_, hrest, ?_, ?_⟩
        · exact run_cons.mpr ⟨s₁, o₁, o, hstep, hrun, rfl⟩
        · rw [← List.append_assoc]
          exact hmail
        · rw [pushes_append, hpushes, hnil]
          rfl

/-- **An actor and its callers do not block each other.**  In every interleaving where what was
    sent without a sender is answered by nothing, the holder of the mutex leaves it in at most
    three steps of its own; while it is free every thread in a call can go on; and while no
    caller holds it the thread of the actor, left alone, ends or comes to wait with all that was
    put into the mailbox handled, in order. -/
theorem never_blocked {events : List (Event τ A T β)} (hids : Function.Injective cls.idOf)
    (hrun : run (threadStep batched cls) ({ user := user₀ } : State n τ A T β H σ) events =
      some (s, out)) (hsilent : ∀ e ∈ pushes out, e.sender = none → cls.Silent e.msg) :
    (∀ who, s.mutex = some who → ∃ k ≤ 3, ∃ s' o,
      run (threadStep batched cls) s (List.replicate k who.event) = some (s', o) ∧
        s'.mutex = none) ∧
    (s.mutex = none → ∀ t, s.callers t ≠ .out →
      ∃ r, threadStep batched cls s (.caller t) = some r) ∧
    ((∀ t, s.mutex ≠ some (.caller t)) → ∃ k ≤ s.work, ∃ s' o,
      run (threadStep batched cls) s (List.replicate k .loop) = some (s', o) ∧
        (s'.loop = .ended ∨ s'.loop = .idle ∧ BQueue.held s'.msgq = [] ∧
          (loopRuns (out ++ o)).map Envelope.unmarked = (pushes out).map Envelope.unmarked)) := by
  have h : Reached cls user₀ s out := by
    obtain ⟨hserial, hmail, hoccupied⟩ :=
      run_invariant (I := fun _ out s => Serial cls user₀ s out ∧ Mail cls s out ∧ Occupied s)
        ⟨Serial.start cls user₀, Mail.start cls user₀, fun w hw => by cases hw⟩
        (fun _ _ _ _ _ _ h hs => ⟨h.1.step hids hs, h.2.1.step hs, h.2.2.step hs⟩) hrun
    exact ⟨hserial, hmail, hoccupied, hsilent⟩
  refine ⟨fun who hw => ?_, fun hnone t hcall => ?_, fun hfree => ?_⟩
  · obtain ⟨at_, hat⟩ := Option.ne_none_iff_exists'.mp (h.occupied who hw)
    obtain ⟨k, hk, hleaves⟩ := h.leaves batched hids hat rfl
    refine ⟨k, hk.trans ?_, hleaves⟩
    cases at_ with
    | locked e => exact le_rfl
    | running e f cache user => exact Nat.le_succ 2
    | ran e => exact Nat.le_of_ble_eq_true rfl
  · unfold threadStep State.callerStep
    dsimp only
    cases hat : s.callers t with
    | out => exact absurd hat hcall
    | sending e => exact ⟨_, rfl⟩
    | stamped e => exact ⟨_, rfl⟩
    | calling e =>
        dsimp only
        rw [if_pos hnone]
        exact ⟨_, rfl⟩
    | inside at_ =>
        have hholds := h.serial.holder (.caller t) at_ (congrArg Caller.inside? hat)
        cases hnone.symm.trans hholds
  · obtain ⟨k, hk, s', o, hrun', hrests, hmail, hpushes⟩ := h.rests batched hids hfree
    refine ⟨k, hk, s', o, hrun', hrests.imp_right fun ⟨hidle, hheld⟩ => ⟨hidle, hheld, ?_⟩⟩
    have hkept := hmail.kept
    rw [pushes_append, hpushes, List.append_nil, hidle, hheld] at hkept
    have hran := hmail.ran (congrArg Loop.stopped hidle)
    rw [hidle] at hran
    rw [hkept, hran]
    rfl

end Reached

end Steps

end Mailbox

/-! ### A run -/

section Lists

attribute [local instance] Boost.lists

/-- A `fast_send` has returned, and the thread of the actor has the mutex. -/
theorem adder_never_blocked : ∃ s out,
    run (threadStep false adder) ({ user := 0 } : State 4 Bool Bool Bool ℕ Unit ℕ)
      (adderTurns.take 10) = some (s, out) ∧
    s.mutex = some .loop ∧
    (∃ k ≤ 3, ∃ s' o, run (threadStep false adder) s (List.replicate k .loop) = some (s', o) ∧
      s'.mutex = none) ∧
    ∃ k ≤ s.work, ∃ s' o,
      run (threadStep false adder) s (List.replicate k .loop) = some (s', o) ∧
        (s'.loop = .ended ∨ s'.loop = .idle ∧ BQueue.held s'.msgq = [] ∧
          (loopRuns (out ++ o)).map Envelope.unmarked = (pushes out).map Envelope.unmarked) := by
  obtain ⟨s, out, hrun, hseen⟩ := exists_adder false (adderTurns.take 10)
    (fun s out => s.mutex = some .loop ∧ ∀ e ∈ pushes out, e.sender ≠ none) (by decide +kernel)
  obtain ⟨hmutex, hsender⟩ := of_decide_eq_true hseen
  obtain ⟨hleaves, -, hrests⟩ := never_blocked adder_ids hrun
    (fun e he hnone => absurd hnone (hsender e he))
  exact ⟨s, out, hrun, hmutex, hleaves .loop hmutex,
    hrests fun t ht => by cases hmutex.symm.trans ht⟩

end Lists

end KasparHft.ActorThreads
