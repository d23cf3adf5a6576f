import KasparHft.LockFreeMPSC
import KasparHft.Machine
import Mathlib.Logic.Function.Basic

/-!
# The threads of the lock-free mailbox

`KasparHft.LockFreeMPSC` takes the calls one at a time.  Here producers `τ` and the consumer take
turns at every access to what they share, in any order: the positions, the numbers and the data of
the cells, `parked_`, the mutex and the condition variable.  An access is one step, and the steps
are in one order, which is what the acquire and release pairs and the two fences are there for.

A weak compare-and-swap may fail without a reason, and a wait may time out at any time.  How long
a push spins or sleeps before it tries a full ring again is left out, and with it `space_cv_`.
-/

namespace KasparHft.LockFreeMPSC

open Machine

variable {τ α : Type*} [DecidableEq τ]

/-- The drain of one call stops here. -/
def kMaxDrain : Nat := 8192

/-! ### Cells -/

/-- The cell of a position. -/
def Ring.cell (q : Ring α) (pos : Nat) : Option (Cell α) := q.buf[pos &&& q.mask]?

/-- A write to the cell of a position. -/
def Ring.modifyCell (q : Ring α) (pos : Nat) (f : Cell α → Cell α) : Option (Ring α) :=
  (q.cell pos).map fun cell => { q with buf := q.buf.set (pos &&& q.mask) (f cell) }

theorem modifyCell_eq_some {q q' : Ring α} {pos : Nat} {f : Cell α → Cell α}
    (h : q.modifyCell pos f = some q') :
    ∃ cell, q.cell pos = some cell ∧
      q' = { q with buf := q.buf.set (pos &&& q.mask) (f cell) } := by
  obtain ⟨cell, hcell, rfl⟩ := Option.map_eq_some_iff.mp h
  exact ⟨cell, hcell, rfl⟩

/-! ### Where the threads are -/

/-- What a producer does next in `push`. -/
inductive Push (α : Type*) where
  | out
  | load (x : α)
  | look (x : α) (pos : Nat)
  | claim (x : α) (pos : Nat)
  | write (x : α) (pos : Nat)
  | publish (x : α) (pos : Nat)
  | check
  | lock
  | notify
deriving DecidableEq

/-- What the consumer does next in `try_pop`. -/
inductive Pop (α : Type*) where
  | load
  | look (pos : Nat)
  | claim (pos : Nat)
  | read (pos : Nat)
  | release (pos : Nat) (v : α)
deriving DecidableEq

/-- The three calls of `try_pop` in `pop_batch`: the drain, the look again after arming, and the
    drain after that look found an item. -/
inductive Phase where
  | drain
  | again
  | after
deriving DecidableEq

/-- What the consumer does next in `pop_batch`.  `got` is what it has drained. -/
inductive Batch (α : Type*) where
  | out
  | pop (phase : Phase) (next : Pop α) (got : List α)
  | lock
  | arm
  | wait
  | woken
  | unlock
  | disarm (got : List α)
deriving DecidableEq

structure State (τ α : Type*) where
  ring : Ring α
  parked : Bool := false
  /-- The consumer holds `wait_mtx_`. -/
  locked : Bool := false
  /-- The wait of the consumer was notified. -/
  notified : Bool := false
  producers : τ → Push α := fun _ => .out
  consumer : Batch α := .out

inductive Event (τ α : Type*) where
  | push (t : τ) (x : α)
  | producer (t : τ)
  /-- The compare-and-swap of a producer fails without a reason. -/
  | producerFails (t : τ)
  | popBatch
  | consumer
  | consumerFails
  | timeout

/-- A step of the producers. -/
def Event.Producers : Event τ α → Prop
  | .push _ _ => True
  | .producer _ => True
  | .producerFails _ => True
  | _ => False

/-- What the threads do that is seen: a position is claimed for an item, a push finds the ring full
    or returns, a pop finds it empty, a batch returns. -/
inductive Output (τ α : Type*) where
  | claimed (t : τ) (x : α)
  | full (t : τ)
  | pushed (t : τ)
  | empty
  | batch (items : List α)
deriving DecidableEq

/-! ### The code -/

def State.setProducer (s : State τ α) (t : τ) (at_ : Push α) : State τ α :=
  { s with producers := Function.update s.producers t at_ }

/-- `push`, one access. -/
def State.pushStep (s : State τ α) (t : τ) : Option (State τ α × List (Output τ α)) :=
  match s.producers t with
  | .out => none
  | .load x => some (s.setProducer t (.look x s.ring.enqueuePos), [])
  | .look x pos =>
      (s.ring.cell pos).map fun cell =>
        if signedDif cell.seq pos = 0 then (s.setProducer t (.claim x pos), [])
        else if signedDif cell.seq pos < 0 then (s.setProducer t (.load x), [.full t])
        else (s.setProducer t (.load x), [])
  | .claim x pos =>
      if s.ring.enqueuePos = pos then
        some ({ s.setProducer t (.write x pos) with
          ring := { s.ring with enqueuePos := sizeT (pos + 1) } }, [.claimed t x])
      else some (s.setProducer t (.look x s.ring.enqueuePos), [])
  | .write x pos =>
      (s.ring.modifyCell pos fun cell => { cell with data := x }).map fun ring =>
        ({ s.setProducer t (.publish x pos) with ring := ring }, [])
  | .publish _ pos =>
      (s.ring.modifyCell pos fun cell => { cell with seq := sizeT (pos + 1) }).map fun ring =>
        ({ s.setProducer t .check with ring := ring }, [])
  | .check =>
      if s.parked then some (s.setProducer t .lock, [])
      else some (s.setProducer t .out, [.pushed t])
  | .lock => if s.locked then none else some (s.setProducer t .notify, [])
  | .notify =>
      some ({ s.setProducer t .out with
        notified := match s.consumer with
          | .wait => true
          | _ => s.notified }, [.pushed t])

/-- Where a drain that has `got` goes on: the next `try_pop`, or the return. -/
def State.drained (s : State τ α) (phase : Phase) (got : List α) :
    State τ α × List (Output τ α) :=
  if got.length < kMaxDrain then ({ s with consumer := .pop phase .load got }, [])
  else ({ s with consumer := .out, locked := false }, [.batch got])

/-- `try_pop` has taken `v`. -/
def State.popped (s : State τ α) (phase : Phase) (got : List α) (v : α) :
    State τ α × List (Output τ α) :=
  match phase with
  | .again => ({ s with consumer := .disarm (got ++ [v]) }, [])
  | _ => s.drained phase (got ++ [v])

/-- `try_pop` has found nothing. -/
def State.popFailed (s : State τ α) (phase : Phase) (got : List α) :
    State τ α × List (Output τ α) :=
  match phase with
  | .again => ({ s with consumer := .wait, locked := false, notified := false }, [.empty])
  | .drain =>
      match got with
      | [] => ({ s with consumer := .lock }, [.empty])
      | _ :: _ => ({ s with consumer := .out }, [.empty, .batch got])
  | .after => ({ s with consumer := .out, locked := false }, [.empty, .batch got])

/-- `try_pop`, one access. -/
def State.popStep (s : State τ α) (phase : Phase) (next : Pop α) (got : List α) :
    Option (State τ α × List (Output τ α)) :=
  match next with
  | .load => some ({ s with consumer := .pop phase (.look s.ring.dequeuePos) got }, [])
  | .look pos =>
      (s.ring.cell pos).map fun cell =>
        if signedDif cell.seq (sizeT (pos + 1)) = 0 then
          ({ s with consumer := .pop phase (.claim pos) got }, [])
        else if signedDif cell.seq (sizeT (pos + 1)) < 0 then s.popFailed phase got
        else ({ s with consumer := .pop phase .load got }, [])
  | .claim pos =>
      if s.ring.dequeuePos = pos then
        some ({ s with
          ring := { s.ring with dequeuePos := sizeT (pos + 1) }
          consumer := .pop phase (.read pos) got }, [])
      else some ({ s with consumer := .pop phase (.look s.ring.dequeuePos) got }, [])
  | .read pos =>
      (s.ring.cell pos).map fun cell =>
        ({ s with consumer := .pop phase (.release pos cell.data) got }, [])
  | .release pos v =>
      (s.ring.modifyCell pos fun cell => { cell with seq := sizeT (pos + s.ring.mask + 1) }).map
        fun ring => State.popped { s with ring := ring } phase got v

/-- `pop_batch`, one access. -/
def State.batchStep (s : State τ α) : Option (State τ α × List (Output τ α)) :=
  match s.consumer with
  | .out => none
  | .pop phase next got => s.popStep phase next got
  | .lock => if s.locked then none else some ({ s with consumer := .arm, locked := true }, [])
  | .arm => some ({ s with consumer := .pop .again .load [], parked := true }, [])
  | .wait =>
      if s.notified then some ({ s with consumer := .woken, locked := true }, []) else none
  | .woken => some ({ s with consumer := .unlock, parked := false }, [])
  | .unlock => some ({ s with consumer := .pop .drain .load [], locked := false }, [])
  | .disarm got => some (State.drained { s with parked := false } .after got)

def threadStep (s : State τ α) : Event τ α → Option (State τ α × List (Output τ α))
  | .push t x =>
      match s.producers t with
      | .out => some (s.setProducer t (.load x), [])
      | _ => none
  | .producer t => s.pushStep t
  | .producerFails t =>
      match s.producers t with
      | .claim x _ => some (s.setProducer t (.look x s.ring.enqueuePos), [])
      | _ => none
  | .popBatch =>
      match s.consumer with
      | .out => some ({ s with consumer := .pop .drain .load [] }, [])
      | _ => none
  | .consumer => s.batchStep
  | .consumerFails =>
      match s.consumer with
      | .pop phase (.claim _) got =>
          some ({ s with consumer := .pop phase (.look s.ring.dequeuePos) got }, [])
      | _ => none
  | .timeout =>
      match s.consumer with
      | .wait => some ({ s with consumer := .woken, locked := true }, [])
      | _ => none

/-! ### What a step does -/

/-- The moves of a producer inside a call. -/
inductive PushMove (s : State τ α) (t : τ) : State τ α → List (Output τ α) → Prop
  | load (x : α) (hat : s.producers t = .load x) :
      PushMove s t (s.setProducer t (.look x s.ring.enqueuePos)) []
  | free (x : α) (pos : Nat) (cell : Cell α) (hat : s.producers t = .look x pos)
      (hcell : s.ring.cell pos = some cell) (hdif : signedDif cell.seq pos = 0) :
      PushMove s t (s.setProducer t (.claim x pos)) []
  | full (x : α) (pos : Nat) (cell : Cell α) (hat : s.producers t = .look x pos)
      (hcell : s.ring.cell pos = some cell) (hdif : signedDif cell.seq pos < 0) :
      PushMove s t (s.setProducer t (.load x)) [.full t]
  | late (x : α) (pos : Nat) (hat : s.producers t = .look x pos) :
      PushMove s t (s.setProducer t (.load x)) []
  | wins (x : α) (pos : Nat) (hat : s.producers t = .claim x pos)
      (hpos : s.ring.enqueuePos = pos) :
      PushMove s t { s.setProducer t (.write x pos) with
        ring := { s.ring with enqueuePos := sizeT (pos + 1) } } [.claimed t x]
  | loses (x : α) (pos : Nat) (hat : s.producers t = .claim x pos) :
      PushMove s t (s.setProducer t (.look x s.ring.enqueuePos)) []
  | writes (x : α) (pos : Nat) (ring : Ring α) (hat : s.producers t = .write x pos)
      (hring : s.ring.modifyCell pos (fun cell => { cell with data := x }) = some ring) :
      PushMove s t { s.setProducer t (.publish x pos) with ring := ring } []
  | publishes (x : α) (pos : Nat) (ring : Ring α) (hat : s.producers t = .publish x pos)
      (hring : s.ring.modifyCell pos (fun cell => { cell with seq := sizeT (pos + 1) }) =
        some ring) :
      PushMove s t { s.setProducer t .check with ring := ring } []
  | seesParked (hat : s.producers t = .check) (hparked : s.parked = true) :
      PushMove s t (s.setProducer t .lock) []
  | returns (hat : s.producers t = .check) (hparked : s.parked = false) :
      PushMove s t (s.setProducer t .out) [.pushed t]
  | locks (hat : s.producers t = .lock) (hlocked : s.locked = false) :
      PushMove s t (s.setProducer t .notify) []
  | notifies (hat : s.producers t = .notify) :
      PushMove s t { s.setProducer t .out with
        notified := match s.consumer with
          | .wait => true
          | _ => s.notified } [.pushed t]

/-- The moves of the consumer. -/
inductive BatchMove (s : State τ α) : State τ α → List (Output τ α) → Prop
  | calls (hat : s.consumer = .out) : BatchMove s { s with consumer := .pop .drain .load [] } []
  | load (phase : Phase) (got : List α) (hat : s.consumer = .pop phase .load got) :
      BatchMove s { s with consumer := .pop phase (.look s.ring.dequeuePos) got } []
  | ready (phase : Phase) (pos : Nat) (got : List α) (cell : Cell α)
      (hat : s.consumer = .pop phase (.look pos) got) (hcell : s.ring.cell pos = some cell)
      (hdif : signedDif cell.seq (sizeT (pos + 1)) = 0) :
      BatchMove s { s with consumer := .pop phase (.claim pos) got } []
  | nothing (phase : Phase) (pos : Nat) (got : List α) (cell : Cell α)
      (hat : s.consumer = .pop phase (.look pos) got) (hcell : s.ring.cell pos = some cell)
      (hdif : signedDif cell.seq (sizeT (pos + 1)) < 0) (s' : State τ α)
      (o : List (Output τ α)) (heq : s.popFailed phase got = (s', o)) : BatchMove s s' o
  | late (phase : Phase) (pos : Nat) (got : List α)
      (hat : s.consumer = .pop phase (.look pos) got) :
      BatchMove s { s with consumer := .pop phase .load got } []
  | takes (phase : Phase) (pos : Nat) (got : List α)
      (hat : s.consumer = .pop phase (.claim pos) got) (hpos : s.ring.dequeuePos = pos) :
      BatchMove s { s with
        ring := { s.ring with dequeuePos := sizeT (pos + 1) }
        consumer := .pop phase (.read pos) got } []
  | loses (phase : Phase) (pos : Nat) (got : List α)
      (hat : s.consumer = .pop phase (.claim pos) got) :
      BatchMove s { s with consumer := .pop phase (.look s.ring.dequeuePos) got } []
  | reads (phase : Phase) (pos : Nat) (got : List α) (cell : Cell α)
      (hat : s.consumer = .pop phase (.read pos) got) (hcell : s.ring.cell pos = some cell) :
      BatchMove s { s with consumer := .pop phase (.release pos cell.data) got } []
  | releases (phase : Phase) (pos : Nat) (got : List α) (v : α) (ring : Ring α)
      (hat : s.consumer = .pop phase (.release pos v) got)
      (hring : s.ring.modifyCell pos
        (fun cell => { cell with seq := sizeT (pos + s.ring.mask + 1) }) = some ring)
      (s' : State τ α) (o : List (Output τ α))
      (heq : State.popped { s with ring := ring } phase got v = (s', o)) : BatchMove s s' o
  | locks (hat : s.consumer = .lock) (hlocked : s.locked = false) :
      BatchMove s { s with consumer := .arm, locked := true } []
  | arms (hat : s.consumer = .arm) :
      BatchMove s { s with consumer := .pop .again .load [], parked := true } []
  | wakes (hat : s.consumer = .wait) : BatchMove s { s with consumer := .woken, locked := true } []
  | unparks (hat : s.consumer = .woken) :
      BatchMove s { s with consumer := .unlock, parked := false } []
  | unlocks (hat : s.consumer = .unlock) :
      BatchMove s { s with consumer := .pop .drain .load [], locked := false } []
  | disarms (got : List α) (hat : s.consumer = .disarm got) (s' : State τ α)
      (o : List (Output τ α))
      (heq : State.drained { s with parked := false } .after got = (s', o)) : BatchMove s s' o

section Moves

variable {s s' : State τ α} {t : τ} {o : List (Output τ α)}

theorem pushStep_moves (hstep : s.pushStep t = some (s', o)) : PushMove s t s' o := by
  unfold State.pushStep at hstep
  split at hstep
  next => cases hstep
  next x hat => cases hstep; exact .load x hat
  next x pos hat =>
    obtain ⟨cell, hcell, heq⟩ := Option.map_eq_some_iff.mp hstep
    split at heq
    next hdif => cases heq; exact .free x pos cell hat hcell hdif
    next =>
      split at heq
      next hdif => cases heq; exact .full x pos cell hat hcell hdif
      next => cases heq; exact .late x pos hat
  next x pos hat =>
    split at hstep
    next hpos => cases hstep; exact .wins x pos hat hpos
    next => cases hstep; exact .loses x pos hat
  next x pos hat =>
    obtain ⟨ring, hring, heq⟩ := Option.map_eq_some_iff.mp hstep
    cases heq
    exact .writes x pos ring hat hring
  next x pos hat =>
    obtain ⟨ring, hring, heq⟩ := Option.map_eq_some_iff.mp hstep
    cases heq
    exact .publishes x pos ring hat hring
  next hat =>
    split at hstep
    next hparked => cases hstep; exact .seesParked hat hparked
    next hparked => cases hstep; exact .returns hat (Bool.eq_false_iff.mpr hparked)
  next hat =>
    split at hstep
    next => cases hstep
    next hlocked => cases hstep; exact .locks hat (Bool.eq_false_iff.mpr hlocked)
  next hat => cases hstep; exact .notifies hat

omit [DecidableEq τ] in
theorem batchStep_moves (hstep : s.batchStep = some (s', o)) : BatchMove s s' o := by
  unfold State.batchStep at hstep
  split at hstep
  next => cases hstep
  next phase next got hat =>
    unfold State.popStep at hstep
    cases next with
    | load => cases hstep; exact .load phase got hat
    | look pos =>
        obtain ⟨cell, hcell, heq⟩ := Option.map_eq_some_iff.mp hstep
        split at heq
        next hdif => cases heq; exact .ready phase pos got cell hat hcell hdif
        next =>
          split at heq
          next hdif => exact .nothing phase pos got cell hat hcell hdif s' o heq
          next => cases heq; exact .late phase pos got hat
    | claim pos =>
        dsimp only at hstep
        split at hstep
        next hpos => cases hstep; exact .takes phase pos got hat hpos
        next => cases hstep; exact .loses phase pos got hat
    | read pos =>
        obtain ⟨cell, hcell, heq⟩ := Option.map_eq_some_iff.mp hstep
        cases heq
        exact .reads phase pos got cell hat hcell
    | release pos v =>
        obtain ⟨ring, hring, heq⟩ := Option.map_eq_some_iff.mp hstep
        exact .releases phase pos got v ring hat hring s' o heq
  next hat =>
    split at hstep
    next => cases hstep
    next hlocked => cases hstep; exact .locks hat (Bool.eq_false_iff.mpr hlocked)
  next hat => cases hstep; exact .arms hat
  next hat =>
    split at hstep
    next => cases hstep; exact .wakes hat
    next => cases hstep
  next hat => cases hstep; exact .unparks hat
  next hat => cases hstep; exact .unlocks hat
  next got hat => exact .disarms got hat s' o (Option.some.inj hstep)

/-- **Every step** starts a push, is a move of a producer or is a move of the consumer. -/
theorem threadStep_cases {e : Event τ α} (hstep : threadStep s e = some (s', o)) :
    (∃ t x, e = .push t x ∧ s.producers t = .out ∧ s' = s.setProducer t (.load x) ∧ o = []) ∨
    (∃ t, (e = .producer t ∨ e = .producerFails t) ∧ PushMove s t s' o) ∨
    (¬ e.Producers ∧ BatchMove s s' o) := by
  cases e with
  | push t x =>
      dsimp only [threadStep] at hstep
      split at hstep
      next hat => cases hstep; exact .inl ⟨t, x, rfl, hat, rfl, rfl⟩
      next => cases hstep
  | producer t => exact .inr (.inl ⟨t, .inl rfl, pushStep_moves hstep⟩)
  | producerFails t =>
      dsimp only [threadStep] at hstep
      split at hstep
      next x pos hat => cases hstep; exact .inr (.inl ⟨t, .inr rfl, .loses x pos hat⟩)
      next => cases hstep
  | popBatch =>
      dsimp only [threadStep] at hstep
      split at hstep
      next hat => cases hstep; exact .inr (.inr ⟨id, .calls hat⟩)
      next => cases hstep
  | consumer => exact .inr (.inr ⟨id, batchStep_moves hstep⟩)
  | consumerFails =>
      dsimp only [threadStep] at hstep
      split at hstep
      next phase pos got hat =>
        cases hstep
        exact .inr (.inr ⟨id, .loses phase pos got hat⟩)
      next => cases hstep
  | timeout =>
      dsimp only [threadStep] at hstep
      split at hstep
      next hat => cases hstep; exact .inr (.inr ⟨id, .wakes hat⟩)
      next => cases hstep

end Moves

end KasparHft.LockFreeMPSC
