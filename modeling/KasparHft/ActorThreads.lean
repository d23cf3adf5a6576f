import KasparHft.AssocMap
import KasparHft.BQueue

/-!
# An actor and its callers

`actors/cpp/Actor.cpp`: the thread of an actor drains its mailbox, one message at a time or a
batch at a time, while other threads put messages into it (`send`) or run a handler themselves
(`fast_send`).  `fast_send_mutex` is held while a handler runs.  The threads take turns in any
order, and a step is one access to what they share: the mailbox, the mutex, `terminated`,
`reply_to`, or the whole of what only the holder of the mutex touches.

The mailbox is a `BQueue`, or with `batched` a `BQueueBatched`, which is a `BQueue` that can be
drained in batches.  The other two kinds that `set_mailbox` offers are not covered: a
`ShardedBQueue` does not hand out in the order of the pushes, and a push into a `LockFreeMPSC`
waits while its ring is full.

What an actor class does is a parameter: the handlers it registers by `typeid`, the id of each
type of message, and what a handler makes of the members and replies.  A handler reads the
members when it begins and writes them when it ends.  `none` is an assertion that fails or a
thread that waits.  What a handler sends elsewhere is not followed; a message it sends to its own
actor is the `send` of some thread.  A member of a group, whose messages go to the mailbox of the
group, is left out, as are the count of messages and the names.
-/

namespace KasparHft.ActorThreads

open AssocMap

/-- `kMessageIdCap`, the size of the two caches. -/
def kMessageIdCap : ℕ := 2048

/-! ### Messages -/

/-- A message; its id is that of its type. -/
structure Message (T β : Type) where
  type : T
  body : β
deriving DecidableEq

/-- A message on its way, with what is written into it: who sent it, the depth it was queued
    behind, and whether the mailbox held nothing behind it. -/
structure Envelope (A T β : Type) where
  msg : Message T β
  sender : Option A
  qlen : ℕ := 0
  last : Bool := false
deriving DecidableEq

/-! ### Dispatch -/

/-- What a handler does: the members after it, the replies in order, and whether it sets
    `terminated`. -/
structure Effect (T β σ : Type) where
  user : σ
  replies : List (Message T β) := []
  terminated : Bool := false

/-- An actor class.  `perform none` is `process_message`. -/
structure Class (A T β H σ : Type) where
  handlers : Map T H
  idOf : T → Fin kMessageIdCap
  shutdownId : Fin kMessageIdCap
  perform : Option H → σ → Envelope A T β → Effect T β σ

/-- `handler_cache` and `dont_have_handler`. -/
structure Cache (H : Type) where
  handlerCache : Fin kMessageIdCap → Option H := fun _ => none
  dontHaveHandler : Fin kMessageIdCap → Bool := fun _ => false

variable {τ A T β H σ : Type} [DecidableEq T] [DecidableEq τ] {n : ℕ}

/-- `call_handler`: the handler to call, if any, and the caches afterwards. -/
def Cache.callHandler (c : Cache H) (cls : Class A T β H σ) (m : Message T β) :
    Option H × Cache H :=
  let id := cls.idOf m.type
  match c.handlerCache id with
  | some f => (some f, c)
  | none =>
      if c.dontHaveHandler id then (none, c)
      else match cls.handlers.lookup m.type with
        | none => (none, { c with dontHaveHandler := Function.update c.dontHaveHandler id true })
        | some f => (some f, { c with handlerCache := Function.update c.handlerCache id (some f) })

/-! ### Where the threads are -/

/-- Who may hold the mutex. -/
inductive Thread (τ : Type) where
  | loop
  | caller (t : τ)
deriving DecidableEq

/-- Inside the mutex: before the handler, in it (with the handler, the caches to be left and the
    members it has read), and after it. -/
inductive Inside (A T β H σ : Type) where
  | locked (e : Envelope A T β)
  | running (e : Envelope A T β) (f : Option H) (cache : Cache H) (user : σ)
  | ran (e : Envelope A T β)

/-- The thread of the actor, in `run_loop`; `rest` is the rest of its batch. -/
inductive Loop (A T β H σ : Type) where
  | idle
  | next (batch : List (Envelope A T β))
  | popped (e : Envelope A T β) (rest : List (Envelope A T β))
  | inside (at_ : Inside A T β H σ) (rest : List (Envelope A T β))
  | handled (e : Envelope A T β) (rest : List (Envelope A T β))
  | stopping
  | ended

/-- Another thread, in `send` or `fast_send`. -/
inductive Caller (A T β H σ : Type) where
  | out
  | sending (e : Envelope A T β)
  | stamped (e : Envelope A T β)
  | calling (e : Envelope A T β)
  | inside (at_ : Inside A T β H σ)

variable [Boost.{0}]

structure State (n : ℕ) (τ A T β H σ : Type) where
  msgq : BQueue.Queue n (Envelope A T β) := BQueue.new n
  /-- The holder of `fast_send_mutex`. -/
  mutex : Option (Thread τ) := none
  terminated : Bool := false
  replyTo : Option A := none
  usingFastSend : Bool := false
  replyMessage : Option (Message T β) := none
  cache : Cache H := {}
  /-- The members of the class. -/
  user : σ
  loop : Loop A T β H σ := .idle
  callers : τ → Caller A T β H σ := fun _ => .out

/-- What is seen: a message is pushed, or dropped because the actor has ended; it is taken to be
    handled; a handler has run; a reply is sent; a `fast_send` returns, or is refused because
    the actor has ended; a message is deleted. -/
inductive Output (τ A T β : Type) where
  | pushed (t : τ) (e : Envelope A T β)
  | dropped (t : τ) (m : Message T β)
  | taken (e : Envelope A T β)
  | ran (who : Thread τ) (e : Envelope A T β)
  | replied (to_ : A) (m : Message T β)
  | returned (t : τ) (reply : Option (Message T β))
  | refused (t : τ)
  | deleted (e : Envelope A T β)
deriving DecidableEq

inductive Event (τ A T β : Type) where
  | send (t : τ) (m : Message T β) (sender : Option A)
  | fastSend (t : τ) (m : Message T β) (sender : Option A)
  | caller (t : τ)
  | loop

/-! ### The code -/

def State.setCaller (s : State n τ A T β H σ) (t : τ) (at_ : Caller A T β H σ) :
    State n τ A T β H σ :=
  { s with callers := Function.update s.callers t at_ }

/-- `reply`, for each reply of a handler. -/
def State.reply (s : State n τ A T β H σ) :
    List (Message T β) → Option (State n τ A T β H σ × List (Output τ A T β))
  | [] => some (s, [])
  | m :: ms =>
      if s.usingFastSend then State.reply { s with replyMessage := some m } ms
      else match s.replyTo with
        | none => none
        | some a => (s.reply ms).map fun r => (r.1, .replied a m :: r.2)

/-- A handler is looked up and begins. -/
def State.enter (cls : Class A T β H σ) (s : State n τ A T β H σ) (e : Envelope A T β) :
    Inside A T β H σ :=
  let (f, cache) := s.cache.callHandler cls e.msg
  .running e f cache s.user

/-- What a handler and its call leave behind. -/
def State.write (s : State n τ A T β H σ) (cache : Cache H) (effect : Effect T β σ) :
    State n τ A T β H σ :=
  { s with
    user := effect.user
    cache := cache
    terminated := s.terminated || effect.terminated }

/-- A handler ends. -/
def State.finish (cls : Class A T β H σ) (s : State n τ A T β H σ) (who : Thread τ)
    (e : Envelope A T β) (f : Option H) (cache : Cache H) (user : σ) :
    Option (State n τ A T β H σ × List (Output τ A T β)) :=
  let effect := cls.perform f user e
  ((s.write cache effect).reply effect.replies).map fun r => (r.1, .ran who e :: r.2)

/-- `run_loop`, for a mailbox that is drained in batches or not, and the end of `operator()`. -/
def State.loopStep (batched : Bool) (cls : Class A T β H σ) (s : State n τ A T β H σ) :
    Option (State n τ A T β H σ × List (Output τ A T β)) :=
  match s.loop with
  | .idle =>
      if batched then
        (BQueue.popBatch s.msgq).map fun r => ({ s with msgq := r.1, loop := .next r.2 }, [])
      else
        (BQueue.pop s.msgq).map fun r =>
          let e := { r.2.1 with last := r.2.2 }
          ({ s with msgq := r.1, replyTo := e.sender, loop := .popped e [] }, [.taken e])
  | .next [] => some ({ s with loop := .idle }, [])
  | .next (e :: rest) =>
      let e := { e with last := rest.isEmpty && BQueue.isEmpty s.msgq }
      some ({ s with replyTo := e.sender, loop := .popped e rest }, [.taken e])
  | .popped e rest =>
      if s.mutex = none then
        some ({ s with
          mutex := some .loop
          usingFastSend := false
          loop := .inside (.locked e) rest }, [])
      else none
  | .inside (.locked e) rest => some ({ s with loop := .inside (s.enter cls e) rest }, [])
  | .inside (.running e f cache user) rest =>
      (s.finish cls .loop e f cache user).map fun r =>
        ({ r.1 with loop := .inside (.ran e) rest }, r.2)
  | .inside (.ran e) rest =>
      some ({ s with mutex := none, loop := .handled e rest }, [.deleted e])
  | .handled e rest =>
      if cls.idOf e.msg.type = cls.shutdownId ∨ s.terminated then
        some ({ s with loop := .stopping }, rest.map .deleted)
      else some ({ s with loop := .next rest }, [])
  | .stopping => some ({ s with terminated := true, loop := .ended }, [])
  | .ended => none

/-- `send` after its first test, and `fast_send`. -/
def State.callerStep (cls : Class A T β H σ) (s : State n τ A T β H σ) (t : τ) :
    Option (State n τ A T β H σ × List (Output τ A T β)) :=
  match s.callers t with
  | .out => none
  | .sending e =>
      some (s.setCaller t (.stamped { e with qlen := BQueue.circBufLen s.msgq % 2 ^ 32 }), [])
  | .stamped e => some ({ s.setCaller t .out with msgq := BQueue.push s.msgq e }, [.pushed t e])
  | .calling e =>
      if s.mutex = none then
        some ({ s.setCaller t (.inside (.locked e)) with
          mutex := some (.caller t)
          usingFastSend := true
          replyMessage := none }, [])
      else none
  | .inside (.locked e) =>
      if s.terminated then some ({ s.setCaller t .out with mutex := none }, [.refused t])
      else some (s.setCaller t (.inside (s.enter cls e)), [])
  | .inside (.running e f cache user) =>
      (s.finish cls (.caller t) e f cache user).map fun r =>
        (r.1.setCaller t (.inside (.ran e)), r.2)
  | .inside (.ran _) =>
      some ({ s.setCaller t .out with mutex := none }, [.returned t s.replyMessage])

/-- One step of a thread. -/
def threadStep (batched : Bool) (cls : Class A T β H σ) (s : State n τ A T β H σ) :
    Event τ A T β → Option (State n τ A T β H σ × List (Output τ A T β))
  | .send t m sender =>
      match s.callers t with
      | .out =>
          if s.terminated then some (s, [.dropped t m])
          else some (s.setCaller t (.sending ⟨m, sender, 0, false⟩), [])
      | _ => none
  | .fastSend t m sender =>
      match s.callers t with
      | .out => some (s.setCaller t (.calling ⟨m, sender, 0, true⟩), [])
      | _ => none
  | .caller t => s.callerStep cls t
  | .loop => s.loopStep batched cls

/-! ### What a step does -/

section Moves

variable {batched : Bool} {cls : Class A T β H σ} {s s' : State n τ A T β H σ}
  {o : List (Output τ A T β)} {t : τ}

/-- The moves of the thread of the actor. -/
inductive LoopMove (cls : Class A T β H σ) (s : State n τ A T β H σ) :
    State n τ A T β H σ → List (Output τ A T β) → Prop
  | pops (q : BQueue.Queue n (Envelope A T β)) (e : Envelope A T β)
      (hat : s.loop = .idle) (hheld : BQueue.held s.msgq = e :: BQueue.held q) :
      LoopMove cls s { s with
        msgq := q
        replyTo := e.sender
        loop := .popped { e with last := (BQueue.held q).isEmpty } [] }
        [.taken { e with last := (BQueue.held q).isEmpty }]
  | drains (hat : s.loop = .idle) (hheld : BQueue.held s.msgq ≠ []) :
      LoopMove cls s { s with
        msgq := BQueue.new n
        loop := .next (BQueue.held s.msgq) } []
  | goesOn (hat : s.loop = .next []) : LoopMove cls s { s with loop := .idle } []
  | takes (e : Envelope A T β) (rest : List (Envelope A T β)) (hat : s.loop = .next (e :: rest)) :
      LoopMove cls s { s with
        replyTo := e.sender
        loop := .popped { e with last := rest.isEmpty && (BQueue.held s.msgq).isEmpty } rest }
        [.taken { e with last := rest.isEmpty && (BQueue.held s.msgq).isEmpty }]
  | locks (e : Envelope A T β) (rest : List (Envelope A T β)) (hat : s.loop = .popped e rest)
      (hfree : s.mutex = none) :
      LoopMove cls s { s with
        mutex := some .loop
        usingFastSend := false
        loop := .inside (.locked e) rest } []
  | enters (e : Envelope A T β) (rest : List (Envelope A T β))
      (hat : s.loop = .inside (.locked e) rest) :
      LoopMove cls s { s with loop := .inside (s.enter cls e) rest } []
  | finishes (e : Envelope A T β) (rest : List (Envelope A T β)) (f : Option H) (cache : Cache H)
      (user : σ) (hat : s.loop = .inside (.running e f cache user) rest)
      (s' : State n τ A T β H σ) (o : List (Output τ A T β))
      (hfinish : s.finish cls .loop e f cache user = some (s', o)) :
      LoopMove cls s { s' with loop := .inside (.ran e) rest } o
  | unlocks (e : Envelope A T β) (rest : List (Envelope A T β))
      (hat : s.loop = .inside (.ran e) rest) :
      LoopMove cls s { s with mutex := none, loop := .handled e rest } [.deleted e]
  | stops (e : Envelope A T β) (rest : List (Envelope A T β)) (hat : s.loop = .handled e rest) :
      LoopMove cls s { s with loop := .stopping } (rest.map .deleted)
  | stays (e : Envelope A T β) (rest : List (Envelope A T β)) (hat : s.loop = .handled e rest)
      (hid : cls.idOf e.msg.type ≠ cls.shutdownId) :
      LoopMove cls s { s with loop := .next rest } []
  | ends (hat : s.loop = .stopping) :
      LoopMove cls s { s with terminated := true, loop := .ended } []

/-- The moves of another thread inside a call. -/
inductive CallerMove (cls : Class A T β H σ) (s : State n τ A T β H σ) (t : τ) :
    State n τ A T β H σ → List (Output τ A T β) → Prop
  | stamps (e : Envelope A T β) (hat : s.callers t = .sending e) :
      CallerMove cls s t
        (s.setCaller t (.stamped { e with qlen := BQueue.circBufLen s.msgq % 2 ^ 32 })) []
  | pushes (e : Envelope A T β) (hat : s.callers t = .stamped e) :
      CallerMove cls s t { s.setCaller t .out with msgq := BQueue.push s.msgq e } [.pushed t e]
  | locks (e : Envelope A T β) (hat : s.callers t = .calling e) (hfree : s.mutex = none) :
      CallerMove cls s t { s.setCaller t (.inside (.locked e)) with
        mutex := some (.caller t)
        usingFastSend := true
        replyMessage := none } []
  | refused (e : Envelope A T β) (hat : s.callers t = .inside (.locked e)) :
      CallerMove cls s t { s.setCaller t .out with mutex := none } [.refused t]
  | enters (e : Envelope A T β) (hat : s.callers t = .inside (.locked e)) :
      CallerMove cls s t (s.setCaller t (.inside (s.enter cls e))) []
  | finishes (e : Envelope A T β) (f : Option H) (cache : Cache H) (user : σ)
      (hat : s.callers t = .inside (.running e f cache user))
      (s' : State n τ A T β H σ) (o : List (Output τ A T β))
      (hfinish : s.finish cls (.caller t) e f cache user = some (s', o)) :
      CallerMove cls s t (s'.setCaller t (.inside (.ran e))) o
  | returns (e : Envelope A T β) (hat : s.callers t = .inside (.ran e)) :
      CallerMove cls s t { s.setCaller t .out with mutex := none } [.returned t s.replyMessage]

omit [DecidableEq τ] in
theorem loopStep_moves (h : s.loopStep batched cls = some (s', o)) :
    LoopMove cls s s' o := by
  unfold State.loopStep at h
  split at h
  next hat =>
    split at h
    · rw [BQueue.popBatch_eq] at h
      split at h
      · cases h
      next hheld =>
        cases h
        exact .drains hat hheld
    · rcases BQueue.pop_eq s.msgq with ⟨hnone, -⟩ | ⟨q, e, hpop, hheld⟩
      · rw [hnone] at h
        cases h
      · rw [hpop] at h
        cases h
        exact .pops q e hat hheld
  next hat =>
    cases h
    exact .goesOn hat
  next e rest hat =>
    cases h
    rw [BQueue.isEmpty_eq]
    exact .takes e rest hat
  next e rest hat =>
    split at h
    next hfree =>
      cases h
      exact .locks e rest hat hfree
    next => cases h
  next e rest hat =>
    cases h
    exact .enters e rest hat
  next e f cache user rest hat =>
    obtain ⟨⟨s₁, o₁⟩, hfinish, heq⟩ := Option.map_eq_some_iff.mp h
    cases heq
    exact .finishes e rest f cache user hat s₁ o₁ hfinish
  next e rest hat =>
    cases h
    exact .unlocks e rest hat
  next e rest hat =>
    split at h
    next =>
      cases h
      exact .stops e rest hat
    next hstay =>
      cases h
      exact .stays e rest hat (not_or.mp hstay).1
  next hat =>
    cases h
    exact .ends hat
  next => cases h

theorem callerStep_moves (h : s.callerStep cls t = some (s', o)) : CallerMove cls s t s' o := by
  unfold State.callerStep at h
  split at h
  next => cases h
  next e hat =>
    cases h
    exact .stamps e hat
  next e hat =>
    cases h
    exact .pushes e hat
  next e hat =>
    split at h
    next hfree =>
      cases h
      exact .locks e hat hfree
    next => cases h
  next e hat =>
    split at h
    · cases h
      exact .refused e hat
    · cases h
      exact .enters e hat
  next e f cache user hat =>
    obtain ⟨⟨s₁, o₁⟩, hfinish, heq⟩ := Option.map_eq_some_iff.mp h
    cases heq
    exact .finishes e f cache user hat s₁ o₁ hfinish
  next e hat =>
    cases h
    exact .returns e hat

/-- A step is a call, a move inside one, or a move of the thread of the actor. -/
theorem threadStep_cases {ev : Event τ A T β} (h : threadStep batched cls s ev = some (s', o)) :
    (∃ t m, s.callers t = .out ∧ s' = s ∧ o = [.dropped t m]) ∨
      (∃ t e, s.callers t = .out ∧ e.last = false ∧ s' = s.setCaller t (.sending e) ∧ o = []) ∨
      (∃ t e, s.callers t = .out ∧ s' = s.setCaller t (.calling e) ∧ o = []) ∨
      (∃ t, CallerMove cls s t s' o) ∨ LoopMove cls s s' o := by
  cases ev with
  | send t m sender =>
      unfold threadStep at h
      dsimp only at h
      split at h
      next hat =>
        split at h
        · cases h
          exact .inl ⟨t, m, hat, rfl, rfl⟩
        · cases h
          exact .inr (.inl ⟨t, _, hat, rfl, rfl, rfl⟩)
      next => cases h
  | fastSend t m sender =>
      unfold threadStep at h
      dsimp only at h
      split at h
      next hat =>
        cases h
        exact .inr (.inr (.inl ⟨t, _, hat, rfl, rfl⟩))
      next => cases h
  | caller t => exact .inr (.inr (.inr (.inl ⟨t, callerStep_moves h⟩)))
  | loop => exact .inr (.inr (.inr (.inr (loopStep_moves h))))

end Moves

end KasparHft.ActorThreads
