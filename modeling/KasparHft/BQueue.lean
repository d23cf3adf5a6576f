import KasparHft.CircularBuffer
import KasparHft.Machine

/-!
# The blocking mailbox (`actors/BQueue.hpp`, `actors/BQueueBatched.hpp`)

A ring of fixed size, any `Boost.CircularBuffer`, with a deque behind it.  Once the ring is full a
push goes to the deque, and goes on doing so until the deque is drained, although pops empty the
ring first and leave it with room.  Calls are made one at a time under the lock: a `pop` or a
`pop_batch` of an empty mailbox waits, so it is no complete call.

For every size of the ring the two parts are one unbounded first-in first-out queue.
-/

namespace KasparHft.BQueue

open Boost (CircularBuffer)

universe u

structure Queue [Boost.{u}] (n : Nat) (α : Type u) where
  cb : CircularBuffer n α
  overflow : List α := []

inductive Call (α : Type u) where
  | push (x : α)
  | pop
  | peek
  | isEmpty
  | length
  | popBatch
deriving DecidableEq, Repr

inductive Reply (α : Type u) where
  | pushed
  | popped (ret : α) (last : Bool)
  | peeked (x : α)
  | empty (b : Bool)
  | len (n : Nat)
  | batch (out : List α)
deriving DecidableEq, Repr

section Mailbox

variable [Boost.{u}] {n : Nat} {α : Type u}

/-! ### The code -/

def new (n : Nat) : Queue n α := { cb := Boost.new }

def isEmpty (q : Queue n α) : Bool := Boost.empty q.cb && q.overflow.isEmpty

def length (q : Queue n α) : Nat := Boost.size q.cb + q.overflow.length

/-- The occupancy of the ring alone, which is read without the lock. -/
def circBufLen (q : Queue n α) : Nat := Boost.size q.cb

def push (q : Queue n α) (x : α) : Queue n α :=
  if !q.overflow.isEmpty || Boost.full q.cb then { q with overflow := q.overflow ++ [x] }
  else { q with cb := Boost.pushBack q.cb x }

/-- Take from the ring first.  `none` is the wait for an item. -/
def pop (q : Queue n α) : Option (Queue n α × α × Bool) :=
  match Boost.front? q.cb with
  | some ret =>
      let q' := { q with cb := Boost.popFront q.cb }
      some (q', ret, isEmpty q')
  | none =>
      match q.overflow with
      | [] => none
      | ret :: rest =>
          let q' := { q with overflow := rest }
          some (q', ret, isEmpty q')

/-- The next item, or `T{}` of an empty mailbox. -/
def peek [Inhabited α] (q : Queue n α) : α :=
  match Boost.front? q.cb with
  | some x => x
  | none => q.overflow.headD default

/-- A loop that moves the front of a container to `out` until it is empty. -/
def moveAll : List α → List α → List α
  | out, [] => out
  | out, x :: rest => moveAll (out ++ [x]) rest

def popBatch (q : Queue n α) : Option (Queue n α × List α) :=
  if isEmpty q then none
  else some (new n, moveAll (moveAll [] (Boost.items q.cb)) q.overflow)

/-- One complete call, with its reply. -/
def step [Inhabited α] (q : Queue n α) : Call α → Option (Queue n α × List (Reply α))
  | .push x => some (push q x, [.pushed])
  | .pop => (pop q).map fun r => (r.1, [.popped r.2.1 r.2.2])
  | .peek => some (q, [.peeked (peek q)])
  | .isEmpty => some (q, [.empty (isEmpty q)])
  | .length => some (q, [.len (length q)])
  | .popBatch => (popBatch q).map fun r => (r.1, [.batch r.2])

/-! ### The queue it stands for -/

/-- An unbounded first-in first-out queue, pushed at its end and taken from at its head. -/
def fifoStep [Inhabited α] (held : List α) : Call α → Option (List α × List (Reply α))
  | .push x => some (held ++ [x], [.pushed])
  | .pop =>
      match held with
      | [] => none
      | x :: rest => some (rest, [.popped x rest.isEmpty])
  | .peek => some (held, [.peeked (held.headD default)])
  | .isEmpty => some (held, [.empty held.isEmpty])
  | .length => some (held, [.len held.length])
  | .popBatch => if held = [] then none else some ([], [.batch held])

/-- What is held, oldest first. -/
def held (q : Queue n α) : List α := Boost.items q.cb ++ q.overflow

def pushedItem : Call α → Option α
  | .push x => some x
  | _ => none

def takenItems : Reply α → List α
  | .popped ret _ => [ret]
  | .batch out => out
  | _ => []

def pushed (calls : List (Call α)) : List α := calls.filterMap pushedItem

def taken (replies : List (Reply α)) : List α := replies.flatMap takenItems

/-! ### Each operation in terms of what is held -/

@[simp] theorem held_new : held (new n : Queue n α) = [] := by
  simp [held, new]

omit [Boost] in
theorem moveAll_eq (out items : List α) : moveAll out items = out ++ items := by
  induction items generalizing out with
  | nil => exact (List.append_nil out).symm
  | cons x rest ih => rw [moveAll, ih, List.append_assoc, List.singleton_append]

theorem isEmpty_eq (q : Queue n α) : isEmpty q = (held q).isEmpty := by
  rw [Bool.eq_iff_iff]
  simp [isEmpty, held]

theorem length_eq (q : Queue n α) : length q = (held q).length := by
  simp [length, held]

theorem held_push (q : Queue n α) (x : α) : held (push q x) = held q ++ [x] := by
  unfold push
  split
  · exact (List.append_assoc _ _ _).symm
  next hring =>
      -- the deque is empty and the ring has room
      simp only [Bool.or_eq_true, Bool.not_eq_true', not_or, Bool.not_eq_false, Bool.not_eq_true,
        List.isEmpty_iff, Boost.full_eq_false_iff] at hring
      obtain ⟨hoverflow, hroom⟩ := hring
      simp [held, hoverflow, Boost.items_pushBack x hroom]

/-- A pop takes the oldest item held and says whether it was the only one. -/
theorem pop_eq (q : Queue n α) :
    pop q = none ∧ held q = [] ∨
      ∃ q' ret, pop q = some (q', ret, (held q').isEmpty) ∧ held q = ret :: held q' := by
  rcases hitems : Boost.items q.cb with _ | ⟨x, rest⟩
  · rcases hoverflow : q.overflow with _ | ⟨x, rest⟩
    · exact .inl ⟨by simp [pop, hitems, hoverflow], by simp [held, hitems, hoverflow]⟩
    · refine .inr ⟨{ q with overflow := rest }, x, ?_, by simp [held, hitems, hoverflow]⟩
      simp [pop, hitems, hoverflow, isEmpty_eq]
  · refine .inr ⟨{ q with cb := Boost.popFront q.cb }, x, ?_, by simp [held, hitems]⟩
    simp [pop, hitems, isEmpty_eq]

theorem peek_eq [Inhabited α] (q : Queue n α) : peek q = (held q).headD default := by
  unfold peek held
  rw [Boost.front?_eq]
  rcases Boost.items q.cb with _ | ⟨x, rest⟩ <;> rfl

theorem popBatch_eq (q : Queue n α) :
    popBatch q = if held q = [] then none else some (new n, held q) := by
  unfold popBatch
  rw [isEmpty_eq, moveAll_eq, moveAll_eq, List.nil_append]
  exact if_congr List.isEmpty_iff rfl rfl

omit [Boost] in
theorem taken_append (before after : List (Reply α)) :
    taken (before ++ after) = taken before ++ taken after := List.flatMap_append

/-! ### Runs -/

variable [Inhabited α]

/-- A call of the mailbox and the same call of the queue it stands for reply alike, and leave the
    one standing for the other; they wait alike as well. -/
theorem step_held (q : Queue n α) (c : Call α) :
    (step q c).map (fun r => (held r.1, r.2)) = fifoStep (held q) c := by
  cases c with
  | push x => simp [step, fifoStep, held_push]
  | pop =>
      rcases pop_eq q with ⟨hwait, hheld⟩ | ⟨q', ret, hpop, hheld⟩
      · simp [step, fifoStep, hwait, hheld]
      · simp [step, fifoStep, hpop, hheld]
  | peek => simp [step, fifoStep, peek_eq]
  | isEmpty => simp [step, fifoStep, isEmpty_eq]
  | length => simp [step, fifoStep, length_eq]
  | popBatch =>
      rw [step, fifoStep, popBatch_eq]
      split
      · rfl
      · simp

theorem run_held (q : Queue n α) (calls : List (Call α)) :
    (Machine.run step q calls).map (fun r => (held r.1, r.2)) =
      Machine.run fifoStep (held q) calls := by
  induction calls generalizing q with
  | nil => rfl
  | cons c calls ih =>
      unfold Machine.run
      rw [← step_held q c]
      rcases step q c with _ | ⟨q', out⟩
      · rfl
      · dsimp only [Option.map_some]
        rw [← ih q']
        rcases Machine.run step q' calls with _ | ⟨q'', outs⟩ <;> rfl

omit [Boost] in
/-- What was held and what is pushed is what is taken and what is held then. -/
theorem fifoStep_balance {items items' : List α} {c : Call α} {out : List (Reply α)}
    (hstep : fifoStep items c = some (items', out)) :
    items ++ (pushedItem c).toList = taken out ++ items' := by
  cases c with
  | push x => cases hstep; rfl
  | pop =>
      cases items with
      | nil => cases hstep
      | cons x rest => cases hstep; exact List.append_nil _
  | peek => cases hstep; exact List.append_nil _
  | isEmpty => cases hstep; exact List.append_nil _
  | length => cases hstep; exact List.append_nil _
  | popBatch =>
      obtain ⟨-, heq⟩ := Option.ite_none_left_eq_some.mp hstep
      cases heq
      simp [pushedItem, taken, takenItems]

omit [Boost] in
/-- Items come out exactly once, in the order they were pushed in. -/
theorem pushed_eq_taken_append {items : List α} {calls : List (Call α)} {replies : List (Reply α)}
    (hrun : Machine.run fifoStep [] calls = some (items, replies)) :
    pushed calls = taken replies ++ items := by
  refine Machine.run_invariant (I := fun calls replies items =>
    pushed calls = taken replies ++ items) rfl ?_ hrun
  intro calls replies items c items' out hbalance hstep
  have hpushed : pushed (calls ++ [c]) = pushed calls ++ (pushedItem c).toList := by
    unfold pushed
    rw [List.filterMap_append]
    cases c <;> rfl
  calc pushed (calls ++ [c])
      = taken replies ++ (items ++ (pushedItem c).toList) := by
        rw [hpushed, hbalance, List.append_assoc]
    _ = taken (replies ++ out) ++ items' := by
        rw [fifoStep_balance hstep, taken_append, List.append_assoc]

/-- **The mailbox is one unbounded first-in first-out queue**, for every size of the ring and every
    sequence of calls.  Its replies are those of the queue and it waits where the queue does;
    items come out once and in the order of the pushes, `peek` shows what the next `pop` takes, and
    `last` says that nothing is left. -/
theorem mailbox_order (n : Nat) (calls : List (Call α)) :
    (Machine.run step (new n) calls).map (fun r => (held r.1, r.2)) =
        Machine.run fifoStep [] calls ∧
      ∀ q replies, Machine.run step (new n) calls = some (q, replies) →
        pushed calls = taken replies ++ held q ∧
          ∀ q' ret last, pop q = some (q', ret, last) →
            peek q = ret ∧ held q = ret :: held q' ∧ (last = true ↔ isEmpty q' = true) := by
  have hruns := run_held (new n : Queue n α) calls
  rw [held_new] at hruns
  refine ⟨hruns, fun q replies hrun => ⟨?_, fun q' ret last hpop => ?_⟩⟩
  · rw [hrun, Option.map_some] at hruns
    exact pushed_eq_taken_append hruns.symm
  · rcases pop_eq q with ⟨hwait, -⟩ | ⟨q'', ret', hpop', hheld⟩
    · cases hwait.symm.trans hpop
    · cases hpop'.symm.trans hpop
      rw [peek_eq, hheld, isEmpty_eq]
      exact ⟨rfl, rfl, Iff.rfl⟩

end Mailbox

section Lists

attribute [local instance] Boost.lists

/-- A ring of one: the second push spills, and the third follows it although the ring is free. -/
theorem mailbox_order_ring_of_one :
    ∃ q : Queue 1 Nat, ∃ replies,
      Machine.run step (new 1) [.push 5, .push 6, .pop, .push 7, .pop] = some (q, replies) ∧
        taken replies = [5, 6] ∧ held q = [7] ∧ peek q = 7 := by
  obtain ⟨-, hrest⟩ := mailbox_order 1 [.push 5, .push 6, .pop, .push 7, .pop]
  exact ⟨_, _, rfl, rfl, rfl, ((hrest _ _ rfl).2 _ _ _ rfl).1⟩

end Lists

end KasparHft.BQueue
