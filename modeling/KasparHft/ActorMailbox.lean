import KasparHft.ActorSerial

/-!
# The mailbox of an actor and its thread

The mailbox is a `BQueue` or a `BQueueBatched` (a `ShardedBQueue` and a `LockFreeMPSC` are not
covered).  However the thread of the actor and its callers take turns, what a caller sends is put
into the mailbox in its order.  The thread handles the messages of its mailbox once and in the
order in which they were put there, and deletes each of them once, handled or not, unless it has
ended by then.  It handles nothing after a `Shutdown`.

`last` is written when a message is taken, so messages are compared without it.
-/

namespace KasparHft.ActorThreads

open Machine

variable {τ A T β H σ : Type} {n : ℕ}

/-! ### What is seen -/

def Output.push : Output τ A T β → Option (Envelope A T β)
  | .pushed _ e => some e
  | _ => none

def Output.delete : Output τ A T β → Option (Envelope A T β)
  | .deleted e => some e
  | _ => none

def Output.take : Output τ A T β → Option (Envelope A T β)
  | .taken e => some e
  | _ => none

def Output.loopRun : Output τ A T β → Option (Envelope A T β)
  | .ran .loop e => some e
  | _ => none

/-- What was put into the mailbox. -/
def pushes (out : List (Output τ A T β)) : List (Envelope A T β) := out.filterMap Output.push

def deletes (out : List (Output τ A T β)) : List (Envelope A T β) := out.filterMap Output.delete

/-- What the thread of the actor has begun with. -/
def begun (out : List (Output τ A T β)) : List (Envelope A T β) := out.filterMap Output.take

/-- What the thread of the actor has handled. -/
def loopRuns (out : List (Output τ A T β)) : List (Envelope A T β) := out.filterMap Output.loopRun

theorem pushes_append (out o : List (Output τ A T β)) :
    pushes (out ++ o) = pushes out ++ pushes o := List.filterMap_append

theorem deletes_append (out o : List (Output τ A T β)) :
    deletes (out ++ o) = deletes out ++ deletes o := List.filterMap_append

theorem begun_append (out o : List (Output τ A T β)) :
    begun (out ++ o) = begun out ++ begun o := List.filterMap_append

theorem loopRuns_append (out o : List (Output τ A T β)) :
    loopRuns (out ++ o) = loopRuns out ++ loopRuns o := List.filterMap_append

theorem filterMap_append_deleted {γ : Type} (g : Output τ A T β → Option γ)
    (hg : ∀ e, g (.deleted e) = none) (out : List (Output τ A T β))
    (rest : List (Envelope A T β)) :
    (out ++ rest.map Output.deleted).filterMap g = out.filterMap g := by
  rw [List.filterMap_append, filterMap_deleted hg, List.append_nil]

/-- A message as it was put into the mailbox. -/
def Envelope.unmarked (e : Envelope A T β) : Envelope A T β := { e with last := false }

/-! ### Where the messages are -/

def Inside.envelope : Inside A T β H σ → Envelope A T β
  | .locked e => e
  | .running e _ _ _ => e
  | .ran e => e

/-- What the thread of the actor has in hand and has not deleted. -/
def Loop.hand : Loop A T β H σ → List (Envelope A T β)
  | .idle => []
  | .next batch => batch
  | .popped e rest => e :: rest
  | .inside at_ rest => at_.envelope :: rest
  | .handled _ rest => rest
  | .stopping => []
  | .ended => []

/-- What is handled and still in hand. -/
def Loop.undeleted : Loop A T β H σ → List (Envelope A T β)
  | .inside (.ran e) _ => [e]
  | _ => []

/-- What is taken and not handled. -/
def Loop.current : Loop A T β H σ → List (Envelope A T β)
  | .popped e _ => [e]
  | .inside (.locked e) _ => [e]
  | .inside (.running e _ _ _) _ => [e]
  | _ => []

def Loop.stopped : Loop A T β H σ → Bool
  | .stopping => true
  | .ended => true
  | _ => false

/-- Between the end of a handler and the decision to go on. -/
def Loop.over : Loop A T β H σ → Bool
  | .inside (.ran _) _ => true
  | .handled _ _ => true
  | .stopping => true
  | .ended => true
  | _ => false

theorem not_over {l : Loop A T β H σ} (h : l.over = false) :
    l.undeleted = [] ∧ l.stopped = false ∧ ∀ e rest, l ≠ .handled e rest := by
  cases l with
  | idle => exact ⟨rfl, rfl, fun _ _ => by rintro ⟨⟩⟩
  | next batch => exact ⟨rfl, rfl, fun _ _ => by rintro ⟨⟩⟩
  | popped e rest => exact ⟨rfl, rfl, fun _ _ => by rintro ⟨⟩⟩
  | inside at_ rest =>
      cases at_ with
      | locked e => exact ⟨rfl, rfl, fun _ _ => by rintro ⟨⟩⟩
      | running e f cache user => exact ⟨rfl, rfl, fun _ _ => by rintro ⟨⟩⟩
      | ran e => cases h
  | handled e rest => cases h
  | stopping => cases h
  | ended => cases h

theorem undeleted_prefix_hand (l : Loop A T β H σ) : l.undeleted <+: l.hand := by
  unfold Loop.undeleted
  split
  next e rest => exact List.prefix_append [e] rest
  next => exact List.nil_prefix

section Mailbox

variable [Boost.{0}]

/-! ### The invariant -/

/-- What was put into the mailbox is deleted, in hand or held, in this order; what is taken is
    handled as it was taken; and what is handled is the first of what is deleted, and all of it
    until the thread stops. -/
structure Mail (cls : Class A T β H σ) (s : State n τ A T β H σ) (out : List (Output τ A T β)) :
    Prop where
  kept : (pushes out).map Envelope.unmarked =
    (deletes out ++ (s.loop.hand ++ BQueue.held s.msgq)).map Envelope.unmarked
  taken : begun out = loopRuns out ++ s.loop.current
  ran : s.loop.stopped = false → loopRuns out = deletes out ++ s.loop.undeleted
  stopped : s.loop.stopped = true → loopRuns out <+: deletes out
  handled : ∀ e rest, s.loop = .handled e rest → (loopRuns out).getLast? = some e
  earlier : ∀ e ∈ (loopRuns out).dropLast, cls.idOf e.msg.type ≠ cls.shutdownId
  before : s.loop.over = false → ∀ e ∈ loopRuns out, cls.idOf e.msg.type ≠ cls.shutdownId

section Steps

variable {cls : Class A T β H σ} {s s' : State n τ A T β H σ} {out o : List (Output τ A T β)}
  {e : Envelope A T β}

/-- A step of another thread, which may put a message into the mailbox. -/
theorem Mail.frame (h : Mail cls s out) (hloop : s'.loop = s.loop)
    (hheld : BQueue.held s'.msgq = BQueue.held s.msgq ++ pushes o) (hdeletes : deletes o = [])
    (hbegun : begun o = []) (hruns : loopRuns o = []) : Mail cls s' (out ++ o) := by
  obtain ⟨hkept, htaken, hran, hstopped, hhandled, hearlier, hbefore⟩ := h
  have hsame : loopRuns (out ++ o) = loopRuns out := by
    rw [loopRuns_append, hruns, List.append_nil]
  have hsame' : deletes (out ++ o) = deletes out := by
    rw [deletes_append, hdeletes, List.append_nil]
  refine ⟨?_, ?_, ?_, ?_, ?_, ?_, ?_⟩
  · rw [hsame', pushes_append, hloop, hheld, List.map_append, hkept, ← List.map_append,
      List.append_assoc, List.append_assoc]
  · rw [begun_append, hbegun, List.append_nil, htaken, hsame, hloop]
  all_goals rw [hsame]
  · rw [hsame', hloop]
    exact hran
  · rw [hsame', hloop]
    exact hstopped
  · rw [hloop]
    exact hhandled
  · exact hearlier
  · rw [hloop]
    exact hbefore

/-- A step of the thread of the actor on its way to the next handler. -/
theorem Mail.onward (h : Mail cls s out) (hover : s.loop.over = false)
    (hover' : s'.loop.over = false)
    (hhand : (s'.loop.hand ++ BQueue.held s'.msgq).map Envelope.unmarked =
      (s.loop.hand ++ BQueue.held s.msgq).map Envelope.unmarked)
    (hbegun : s.loop.current ++ begun o = s'.loop.current) (hpushes : pushes o = [])
    (hdeletes : deletes o = []) (hruns : loopRuns o = []) : Mail cls s' (out ++ o) := by
  obtain ⟨hnil, hgoes, -⟩ := not_over hover
  obtain ⟨hnil', hgoes', hne⟩ := not_over hover'
  have hsame : loopRuns (out ++ o) = loopRuns out := by
    rw [loopRuns_append, hruns, List.append_nil]
  have hsame' : deletes (out ++ o) = deletes out := by
    rw [deletes_append, hdeletes, List.append_nil]
  refine ⟨?_, ?_, fun _ => ?_, fun hstop => ?_, fun e rest hat => ?_, ?_, fun _ => ?_⟩
  · simp only [List.map_append] at hhand
    rw [pushes_append, hpushes, List.append_nil, hsame', h.kept]
    simp only [List.map_append, hhand]
  · rw [begun_append, h.taken, hsame, List.append_assoc, hbegun]
  · rw [hsame, hsame', hnil', h.ran hgoes, hnil]
  · cases hgoes'.symm.trans hstop
  · exact absurd hat (hne e rest)
  · rw [hsame]
    exact h.earlier
  · rw [hsame]
    exact h.before hover

/-! ### Replies -/

/-- Replies touch neither the mailbox, nor the mutex, nor where the threads are. -/
theorem reply_frame {ms : List (Message T β)} (h : s.reply ms = some (s', o)) :
    s'.loop = s.loop ∧ s'.msgq = s.msgq ∧ s'.mutex = s.mutex ∧ s'.callers = s.callers ∧
      ∀ x ∈ o, ∃ a m, x = .replied a m := by
  induction ms generalizing s s' o with
  | nil =>
      cases h
      exact ⟨rfl, rfl, rfl, rfl, fun _ hx => absurd hx List.not_mem_nil⟩
  | cons m ms ih =>
      unfold State.reply at h
      split at h
      · obtain ⟨hloop, hmsgq, hmutex, hcallers, hreplied⟩ := ih h
        exact ⟨hloop, hmsgq, hmutex, hcallers, hreplied⟩
      · split at h
        · cases h
        next a ha =>
          obtain ⟨⟨s₁, o₁⟩, hrest, heq⟩ := Option.map_eq_some_iff.mp h
          cases heq
          obtain ⟨hloop, hmsgq, hmutex, hcallers, hreplied⟩ := ih hrest
          refine ⟨hloop, hmsgq, hmutex, hcallers, fun x hx => ?_⟩
          rcases List.mem_cons.mp hx with rfl | hx
          · exact ⟨a, m, rfl⟩
          · exact hreplied x hx

/-- But for its replies, the end of a handler is seen as one. -/
theorem finish_seen {who : Thread τ} {f : Option H} {cache : Cache H} {user : σ}
    (h : s.finish cls who e f cache user = some (s', o)) {γ : Type}
    (g : Output τ A T β → Option γ) (hg : ∀ a m, g (.replied a m) = none) :
    o.filterMap g = [.ran who e].filterMap g := by
  unfold State.finish at h
  obtain ⟨⟨s₁, o₁⟩, hreply, heq⟩ := Option.map_eq_some_iff.mp h
  cases heq
  obtain ⟨-, -, -, -, hreplied⟩ := reply_frame hreply
  have hnil : o₁.filterMap g = [] := by
    refine List.filterMap_eq_nil_iff.mpr fun x hx => ?_
    obtain ⟨a, m, rfl⟩ := hreplied x hx
    exact hg a m
  rw [← List.singleton_append, List.filterMap_append, hnil, List.append_nil]

theorem finish_frame {who : Thread τ} {f : Option H} {cache : Cache H} {user : σ}
    (h : s.finish cls who e f cache user = some (s', o)) :
    s'.loop = s.loop ∧ s'.msgq = s.msgq ∧ s'.mutex = s.mutex ∧ s'.callers = s.callers ∧
      pushes o = [] ∧ deletes o = [] ∧ begun o = [] ∧ loopRuns o = loopRuns [.ran who e] := by
  have hseen := fun g : Output τ A T β → Option (Envelope A T β) => finish_seen h g
  unfold State.finish at h
  obtain ⟨⟨s₁, o₁⟩, hreply, heq⟩ := Option.map_eq_some_iff.mp h
  cases heq
  obtain ⟨hloop, hmsgq, hmutex, hcallers, -⟩ := reply_frame hreply
  exact ⟨hloop, hmsgq, hmutex, hcallers, hseen _ fun _ _ => rfl, hseen _ fun _ _ => rfl,
    hseen _ fun _ _ => rfl, hseen _ fun _ _ => rfl⟩

/-! ### Every step -/

theorem CallerMove.mail [DecidableEq T] [DecidableEq τ] {t : τ} (h : Mail cls s out)
    (hmove : CallerMove cls s t s' o) : Mail cls s' (out ++ o) := by
  have hnil : BQueue.held s.msgq = BQueue.held s.msgq ++ [] := (List.append_nil _).symm
  cases hmove with
  | stamps e hat => exact h.frame rfl hnil rfl rfl rfl
  | pushes e hat => exact h.frame rfl (BQueue.held_push s.msgq e) rfl rfl rfl
  | locks e hat hfree => exact h.frame rfl hnil rfl rfl rfl
  | refused e hat => exact h.frame rfl hnil rfl rfl rfl
  | enters e hat => exact h.frame rfl hnil rfl rfl rfl
  | finishes e f cache user hat s₁ o hfinish =>
      obtain ⟨hloop, hmsgq, -, -, hpushes, hdeletes, hbegun, hruns⟩ := finish_frame hfinish
      refine h.frame hloop ?_ hdeletes hbegun hruns
      rw [hpushes, List.append_nil]
      exact congrArg BQueue.held hmsgq
  | returns e hat => exact h.frame rfl hnil rfl rfl rfl

theorem LoopMove.mail [DecidableEq T] (h : Mail cls s out) (hmove : LoopMove cls s s' o) :
    Mail cls s' (out ++ o) := by
  have hover : ∀ l, s.loop = l → s.loop.over = l.over := fun l hat => congrArg Loop.over hat
  have hhand : ∀ l, s.loop = l → s.loop.hand = l.hand := fun l hat => congrArg Loop.hand hat
  cases hmove with
  | pops q e hat hheld =>
      refine h.onward (hover _ hat) rfl ?_ (by rw [hat]; rfl) rfl rfl rfl
      rw [hhand _ hat, hheld]
      rfl
  | drains hat hheld =>
      refine h.onward (hover _ hat) rfl ?_ (by rw [hat]; rfl) rfl rfl rfl
      rw [hhand _ hat]
      show (BQueue.held s.msgq ++ BQueue.held (BQueue.new n)).map _ = (BQueue.held s.msgq).map _
      rw [BQueue.held_new, List.append_nil]
  | goesOn hat =>
      refine h.onward (hover _ hat) rfl ?_ (by rw [hat]; rfl) rfl rfl rfl
      rw [hhand _ hat]
      rfl
  | takes e rest hat =>
      refine h.onward (hover _ hat) rfl ?_ (by rw [hat]; rfl) rfl rfl rfl
      rw [hhand _ hat]
      rfl
  | locks e rest hat hfree =>
      refine h.onward (hover _ hat) rfl ?_ (by rw [hat]; rfl) rfl rfl rfl
      rw [hhand _ hat]
      rfl
  | enters e rest hat =>
      refine h.onward (hover _ hat) rfl ?_ (by rw [hat]; rfl) rfl rfl rfl
      rw [hhand _ hat]
      rfl
  | finishes e rest f cache user hat s₁ o hfinish =>
      obtain ⟨-, hmsgq, -, -, hpushes, hdeletes, hbegun, hruns⟩ := finish_frame hfinish
      obtain ⟨hnil, hgoes, -⟩ := not_over (hover _ hat)
      have hran := h.ran hgoes
      rw [hnil, List.append_nil] at hran
      have hruns' : loopRuns (out ++ o) = loopRuns out ++ [e] := by
        rw [loopRuns_append, hruns]
        rfl
      have hdeletes' : deletes (out ++ o) = deletes out := by
        rw [deletes_append, hdeletes, List.append_nil]
      refine ⟨?_, ?_, fun _ => ?_, fun hstop => ?_, fun e rest hat => ?_, ?_, fun hover' => ?_⟩
      · rw [pushes_append, hpushes, List.append_nil, hdeletes', h.kept, hhand _ hat]
        dsimp only
        rw [hmsgq]
        rfl
      · rw [begun_append, hbegun, List.append_nil, h.taken, hruns', hat]
        exact (List.append_nil _).symm
      · rw [hruns', hdeletes', hran]
        rfl
      · cases hstop
      · cases hat
      · rw [hruns', List.dropLast_concat]
        exact h.before (hover _ hat)
      · cases hover'
  | unlocks e rest hat =>
      have hran := h.ran (congrArg Loop.stopped hat)
      rw [hat] at hran
      have hruns : loopRuns (out ++ [.deleted e]) = loopRuns out := by
        rw [loopRuns_append]
        exact List.append_nil _
      have hdeletes : deletes (out ++ [.deleted e]) = deletes out ++ [e] := deletes_append _ _
      refine ⟨?_, ?_, fun _ => ?_, fun hstop => ?_, fun e' rest' hat' => ?_, ?_, fun hover' => ?_⟩
      · rw [pushes_append, hdeletes, List.append_assoc]
        refine (congrArg _ (List.append_nil _)).trans (h.kept.trans ?_)
        rw [hhand _ hat]
        rfl
      · rw [begun_append, h.taken, hruns, hat]
        exact List.append_nil _
      · rw [hruns, hdeletes, hran]
        exact (List.append_nil _).symm
      · cases hstop
      · cases hat'
        rw [hruns, hran]
        exact List.getLast?_concat
      · rw [hruns]
        exact h.earlier
      · cases hover'
  | stops e rest hat =>
      have hran := h.ran (congrArg Loop.stopped hat)
      rw [hat] at hran
      have hruns : loopRuns (out ++ rest.map .deleted) = loopRuns out :=
        filterMap_append_deleted Output.loopRun (fun _ => rfl) out rest
      have hpushes : pushes (out ++ rest.map .deleted) = pushes out :=
        filterMap_append_deleted Output.push (fun _ => rfl) out rest
      have hbegun : begun (out ++ rest.map .deleted) = begun out :=
        filterMap_append_deleted Output.take (fun _ => rfl) out rest
      have hdeletes : deletes (out ++ rest.map .deleted) = deletes out ++ rest := by
        rw [deletes_append]
        refine congrArg _ ?_
        unfold deletes
        rw [List.filterMap_map]
        exact List.filterMap_some
      refine ⟨?_, ?_, fun hgoes => ?_, fun _ => ?_, fun e' rest' hat' => ?_, ?_, fun hover' => ?_⟩
      · rw [hpushes, hdeletes, h.kept, hhand _ hat, List.append_assoc]
        rfl
      · rw [hbegun, h.taken, hruns, hat]
        rfl
      · cases hgoes
      · rw [hruns, hdeletes, hran]
        exact (List.append_nil _).symm ▸ List.prefix_append _ _
      · cases hat'
      · rw [hruns]
        exact h.earlier
      · cases hover'
  | stays e rest hat hid =>
      have hlast := h.handled e rest hat
      have hran := h.ran (congrArg Loop.stopped hat)
      rw [hat] at hran
      rw [List.append_nil]
      refine ⟨?_, ?_, fun _ => hran, fun hstop => ?_, fun e' rest' hat' => ?_, h.earlier,
        fun _ => ?_⟩
      · rw [h.kept, hhand _ hat]
        rfl
      · rw [h.taken, hat]
        rfl
      · cases hstop
      · cases hat'
      · intro x hx
        obtain ⟨log, hlog⟩ := List.getLast?_eq_some_iff.mp hlast
        have hearlier := h.earlier
        rw [hlog, List.dropLast_concat] at hearlier
        rw [hlog] at hx
        rcases List.mem_append.mp hx with hx | hx
        · exact hearlier x hx
        · rw [List.mem_singleton.mp hx]
          exact hid
  | ends hat =>
      have hstopped := h.stopped (congrArg Loop.stopped hat)
      rw [List.append_nil]
      refine ⟨?_, ?_, fun hgoes => ?_, fun _ => hstopped, fun e' rest' hat' => ?_, h.earlier,
        fun hover' => ?_⟩
      · rw [h.kept, hhand _ hat]
        rfl
      · rw [h.taken, hat]
        rfl
      · cases hgoes
      · cases hat'
      · cases hover'

theorem Mail.step [DecidableEq T] [DecidableEq τ] {batched : Bool} {ev : Event τ A T β}
    (h : Mail cls s out) (hs : threadStep batched cls s ev = some (s', o)) :
    Mail cls s' (out ++ o) := by
  have hnil : BQueue.held s.msgq = BQueue.held s.msgq ++ [] := (List.append_nil _).symm
  rcases threadStep_cases hs with ⟨t, m, -, rfl, rfl⟩ | ⟨t, e, -, -, rfl, rfl⟩ |
    ⟨t, e, -, rfl, rfl⟩ | ⟨t, hmove⟩ | hmove
  · exact h.frame rfl hnil rfl rfl rfl
  · exact h.frame rfl hnil rfl rfl rfl
  · exact h.frame rfl hnil rfl rfl rfl
  · exact hmove.mail h
  · exact hmove.mail h

theorem Mail.start (cls : Class A T β H σ) (user₀ : σ) :
    Mail cls ({ user := user₀ } : State n τ A T β H σ) [] where
  kept := by
    show [] = (BQueue.held (BQueue.new n)).map Envelope.unmarked
    rw [BQueue.held_new]
    rfl
  taken := rfl
  ran _ := rfl
  stopped hstop := by cases hstop
  handled _ _ hat := by cases hat
  earlier _ he := absurd he List.not_mem_nil
  before _ _ he := absurd he List.not_mem_nil

/-! ### The last message -/

theorem CallerMove.begun [DecidableEq T] [DecidableEq τ] {t : τ}
    (hmove : CallerMove cls s t s' o) : begun o = [] := by
  cases hmove with
  | stamps e hat => rfl
  | pushes e hat => rfl
  | locks e hat hfree => rfl
  | refused e hat => rfl
  | enters e hat => rfl
  | finishes e f cache user hat s₁ o hfinish =>
      obtain ⟨-, -, -, -, -, -, hbegun, -⟩ := finish_frame hfinish
      exact hbegun
  | returns e hat => rfl

/-- `last` says that the mailbox and the batch hold nothing more. -/
theorem LoopMove.last [DecidableEq T] (hmove : LoopMove cls s s' o) (he : e ∈ begun o) :
    e.last = true ↔ s'.loop.hand.tail ++ BQueue.held s'.msgq = [] := by
  cases hmove with
  | pops q e' hat hheld =>
      rw [List.mem_singleton.mp he]
      exact List.isEmpty_iff
  | drains hat hheld => cases he
  | goesOn hat => cases he
  | takes e' rest hat =>
      rw [List.mem_singleton.mp he]
      show (rest.isEmpty && (BQueue.held s.msgq).isEmpty) = true ↔ rest ++ BQueue.held s.msgq = []
      rw [Bool.and_eq_true, List.isEmpty_iff, List.isEmpty_iff, List.append_eq_nil_iff]
  | locks e' rest hat hfree => cases he
  | enters e' rest hat => cases he
  | finishes e' rest f cache user hat s₁ o hfinish =>
      obtain ⟨-, -, -, -, -, -, hbegun, -⟩ := finish_frame hfinish
      rw [hbegun] at he
      cases he
  | unlocks e' rest hat => cases he
  | stops e' rest hat =>
      rw [begun, filterMap_deleted (fun _ => rfl) rest] at he
      cases he
  | stays e' rest hat hid => cases he
  | ends hat => cases he

/-! ### The messages of each thread -/

section Sends

variable [DecidableEq τ]

def Event.sent (t : τ) : Event τ A T β → Option (Message T β)
  | .send t' m _ => if t' = t then some m else none
  | _ => none

def Output.settles (t : τ) : Output τ A T β → Option (Message T β)
  | .pushed t' e => if t' = t then some e.msg else none
  | .dropped t' m => if t' = t then some m else none
  | _ => none

/-- What a thread has sent. -/
def sends (t : τ) (events : List (Event τ A T β)) : List (Message T β) :=
  events.filterMap (Event.sent t)

/-- What a thread has sent and is put into the mailbox, or dropped because the actor has ended. -/
def settled (t : τ) (out : List (Output τ A T β)) : List (Message T β) :=
  out.filterMap (Output.settles t)

/-- What a thread is about to put into the mailbox. -/
def Caller.unsent : Caller A T β H σ → List (Message T β)
  | .sending e => [e.msg]
  | .stamped e => [e.msg]
  | _ => []

omit [Boost] in
theorem settles_pushed (t t' : τ) (e : Envelope A T β) :
    [Output.pushed t' e].filterMap (Output.settles t) = if t' = t then [e.msg] else [] := by
  split
  next ht => exact List.filterMap_cons_some (if_pos ht)
  next ht => exact List.filterMap_cons_none (if_neg ht)

omit [Boost] in
theorem settles_dropped (t t' : τ) (m : Message T β) :
    [(Output.dropped t' m : Output τ A T β)].filterMap (Output.settles t) =
      if t' = t then [m] else [] := by
  split
  next ht => exact List.filterMap_cons_some (if_pos ht)
  next ht => exact List.filterMap_cons_none (if_neg ht)

omit [Boost] in
theorem sends_send (t t' : τ) (m : Message T β) (sender : Option A) :
    sends t [Event.send t' m sender] = if t' = t then [m] else [] := by
  split
  next ht => exact List.filterMap_cons_some (if_pos ht)
  next ht => exact List.filterMap_cons_none (if_neg ht)

theorem callers_setCaller (s : State n τ A T β H σ) (t : τ) (c : Caller A T β H σ) (t' : τ) :
    (s.setCaller t c).callers t' = if t = t' then c else s.callers t' := by
  unfold State.setCaller
  dsimp only
  split
  next ht => rw [ht, Function.update_self]
  next ht => rw [Function.update_of_ne (Ne.symm ht)]

theorem unsent_setCaller {t : τ} {c : Caller A T β H σ} (hc : c.unsent = (s.callers t).unsent)
    (t' : τ) : ((s.setCaller t c).callers t').unsent = (s.callers t').unsent := by
  rw [callers_setCaller]
  split
  next ht => rw [hc, ht]
  next => rfl

theorem CallerMove.settled [DecidableEq T] {t : τ} (hmove : CallerMove cls s t s' o) (t' : τ) :
    o.filterMap (Output.settles t') ++ (s'.callers t').unsent = (s.callers t').unsent := by
  cases hmove with
  | stamps e hat => exact unsent_setCaller (by rw [hat]; rfl) t'
  | pushes e hat =>
      show _ ++ ((s.setCaller t .out).callers t').unsent = _
      rw [settles_pushed, callers_setCaller]
      split
      next ht =>
        rw [← ht, hat]
        rfl
      next => rfl
  | locks e hat hfree => exact unsent_setCaller (c := .inside _) (by rw [hat]; rfl) t'
  | refused e hat => exact unsent_setCaller (c := .out) (by rw [hat]; rfl) t'
  | enters e hat => exact unsent_setCaller (by rw [hat]; rfl) t'
  | finishes e f cache user hat s₁ o hfinish =>
      obtain ⟨-, -, -, hcallers, -⟩ := finish_frame hfinish
      rw [finish_seen hfinish _ fun _ _ => rfl]
      refine (unsent_setCaller ?_ t').trans ?_
      · rw [hcallers, hat]
        rfl
      · rw [hcallers]
  | returns e hat => exact unsent_setCaller (c := .out) (by rw [hat]; rfl) t'

theorem LoopMove.settled [DecidableEq T] (hmove : LoopMove cls s s' o) (t : τ) :
    o.filterMap (Output.settles t) ++ (s'.callers t).unsent = (s.callers t).unsent := by
  cases hmove with
  | pops q e hat hheld => rfl
  | drains hat hheld => rfl
  | goesOn hat => rfl
  | takes e rest hat => rfl
  | locks e rest hat hfree => rfl
  | enters e rest hat => rfl
  | finishes e rest f cache user hat s₁ o hfinish =>
      obtain ⟨-, -, -, hcallers, -⟩ := finish_frame hfinish
      rw [finish_seen hfinish _ fun _ _ => rfl]
      exact congrArg (fun callers => (callers t).unsent) hcallers
  | unlocks e rest hat => rfl
  | stops e rest hat =>
      rw [filterMap_deleted fun _ => rfl]
      rfl
  | stays e rest hat hid => rfl
  | ends hat => rfl

theorem step_settled [DecidableEq T] {batched : Bool} {ev : Event τ A T β}
    (hs : threadStep batched cls s ev = some (s', o)) (t : τ) :
    o.filterMap (Output.settles t) ++ (s'.callers t).unsent =
      (s.callers t).unsent ++ sends t [ev] := by
  cases ev with
  | send t' m sender =>
      unfold threadStep at hs
      dsimp only at hs
      split at hs
      next hat =>
        rw [sends_send]
        split at hs
        · cases hs
          rw [settles_dropped]
          split
          next ht =>
            rw [← ht, hat]
            rfl
          next => exact (List.append_nil _).symm
        · cases hs
          rw [callers_setCaller]
          split
          next ht =>
            rw [← ht, hat]
            rfl
          next => exact (List.append_nil _).symm
      next => cases hs
  | fastSend t' m sender =>
      unfold threadStep at hs
      dsimp only at hs
      split at hs
      next hat =>
        cases hs
        exact (unsent_setCaller (by rw [hat]; rfl) t).trans (List.append_nil _).symm
      next => cases hs
  | caller t' => exact ((callerStep_moves hs).settled t).trans (List.append_nil _).symm
  | loop => exact ((loopStep_moves hs).settled t).trans (List.append_nil _).symm

end Sends

/-- **The mailbox in turns.**  In every interleaving a thread's messages are put into the mailbox
    in the order in which it sent them, or dropped.  What is put there is deleted, in the hand of
    the thread of the actor or still held, each message once and in the order of the pushes; the
    messages handled are the first of them, handled as they were taken, and each is deleted; only
    the last one may be a `Shutdown`.  A message taken next says with `last` whether it leaves
    anything behind. -/
theorem mailbox_in_turns [DecidableEq T] [DecidableEq τ] {user₀ : σ} {batched : Bool}
    {events : List (Event τ A T β)}
    (hrun : run (threadStep batched cls) ({ user := user₀ } : State n τ A T β H σ) events =
      some (s, out)) :
    (∀ t, settled t out ++ (s.callers t).unsent = sends t events) ∧
    (pushes out).map Envelope.unmarked =
      (deletes out ++ (s.loop.hand ++ BQueue.held s.msgq)).map Envelope.unmarked ∧
    (loopRuns out).map Envelope.unmarked <+: (pushes out).map Envelope.unmarked ∧
    begun out = loopRuns out ++ s.loop.current ∧
    loopRuns out <+: deletes out ++ s.loop.undeleted ∧
    (s.loop.stopped = false → loopRuns out = deletes out ++ s.loop.undeleted) ∧
    (∀ e ∈ (loopRuns out).dropLast, cls.idOf e.msg.type ≠ cls.shutdownId) ∧
    ∀ ev s' o e, threadStep batched cls s ev = some (s', o) → e ∈ begun o →
      (e.last = true ↔ s'.loop.hand.tail ++ BQueue.held s'.msgq = []) := by
  have h : Mail cls s out :=
    run_invariant (I := fun _ out s => Mail cls s out) (Mail.start cls user₀)
      (fun _ _ _ _ _ _ h hs => h.step hs) hrun
  have hsends : ∀ t, settled t out ++ (s.callers t).unsent = sends t events := by
    refine run_invariant (I := fun events out (s : State n τ A T β H σ) =>
      ∀ t, settled t out ++ (s.callers t).unsent = sends t events) (fun _ => rfl) ?_ hrun
    intro events out s ev s' o hsends hs t
    have hstep := step_settled hs t
    unfold settled sends at hsends hstep ⊢
    rw [List.filterMap_append, List.filterMap_append, List.append_assoc, hstep, ← hsends,
      List.append_assoc]
  have hdeleted : loopRuns out <+: deletes out ++ s.loop.undeleted := by
    rcases hstop : s.loop.stopped
    · refine ⟨[], ?_⟩
      rw [List.append_nil, h.ran hstop]
    · exact (h.stopped hstop).trans (List.prefix_append _ _)
  refine ⟨hsends, h.kept, ?_, h.taken, hdeleted, h.ran, h.earlier, fun ev s' o e hs he => ?_⟩
  · rw [h.kept]
    refine (hdeleted.trans ?_).map _
    exact (List.prefix_append_right_inj _).mpr
      ((undeleted_prefix_hand s.loop).trans (List.prefix_append _ _))
  · rcases threadStep_cases hs with ⟨t, m, -, -, rfl⟩ | ⟨t, e', -, -, -, rfl⟩ |
      ⟨t, e', -, -, rfl⟩ | ⟨t, hmove⟩ | hmove
    · cases he
    · cases he
    · cases he
    · rw [hmove.begun] at he
      cases he
    · exact hmove.last he

end Steps

end Mailbox

/-! ### A run -/

section Lists

attribute [local instance] Boost.lists

/-- Three messages are drained in one batch, and the second is a `Shutdown`. -/
def adderBatch : List (Event Bool Bool Bool ℕ) :=
  [(true, 2), (false, 0), (true, 3)].flatMap (fun m =>
    [.send true ⟨m.1, m.2⟩ (some true), .caller true, .caller true]) ++ List.replicate 14 .loop

theorem adder_in_turns : ∃ s out,
    run (threadStep true adder) ({ user := 0 } : State 4 Bool Bool Bool ℕ Unit ℕ) adderBatch =
      some (s, out) ∧
    ((loopRuns out).map (fun e => e.msg.body) = [2, 0] ∧
      (deletes out).map (fun e => e.msg.body) = [2, 0, 3]) ∧
    (∀ t, settled t out ++ (s.callers t).unsent = sends t adderBatch) ∧
    (pushes out).map Envelope.unmarked =
      (deletes out ++ (s.loop.hand ++ BQueue.held s.msgq)).map Envelope.unmarked ∧
    (loopRuns out).map Envelope.unmarked <+: (pushes out).map Envelope.unmarked ∧
    ∀ e ∈ (loopRuns out).dropLast, adder.idOf e.msg.type ≠ adder.shutdownId := by
  obtain ⟨s, out, hrun, hseen⟩ := exists_adder true adderBatch
    (fun _ out => (loopRuns out).map (fun e => e.msg.body) = [2, 0] ∧
      (deletes out).map (fun e => e.msg.body) = [2, 0, 3]) (by decide +kernel)
  obtain ⟨hsends, hkept, hprefix, -, -, -, hearlier, -⟩ := mailbox_in_turns hrun
  exact ⟨s, out, hrun, of_decide_eq_true hseen, hsends, hkept, hprefix, hearlier⟩

end Lists

end KasparHft.ActorThreads
