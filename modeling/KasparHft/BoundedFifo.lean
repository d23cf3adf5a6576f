import KasparHft.Machine

/-!
# Bounded first-in first-out queues

The queue a bounded mailbox stands for: a list of at most `capacity` items that is pushed at its
end and popped at its head.  A full queue refuses a push, an empty one a pop, and no call blocks.
Along every run what was accepted is what was returned followed by what is held.
-/

namespace BoundedFifo

variable {α : Type*}

inductive Call (α : Type*) where
  | push (x : α)
  | pop
deriving DecidableEq, Repr

inductive Reply (α : Type*) where
  | pushed (ok : Bool)
  | popped (x : Option α)
deriving DecidableEq, Repr

def step (capacity : Nat) (held : List α) : Call α → Option (List α × List (Reply α))
  | .push x =>
      if held.length < capacity then some (held ++ [x], [.pushed true])
      else some (held, [.pushed false])
  | .pop =>
      match held with
      | [] => some ([], [.popped none])
      | x :: rest => some (rest, [.popped (some x)])

/-- The item a call hands over, when the reply says that it was taken. -/
def acceptedItem : Call α × Reply α → Option α
  | (.push x, .pushed true) => some x
  | _ => none

def returnedItem : Reply α → Option α
  | .popped x => x
  | .pushed _ => none

/-- What was accepted, read off the calls and their replies. -/
def accepted (calls : List (Call α)) (replies : List (Reply α)) : List α :=
  (calls.zip replies).filterMap acceptedItem

def returned (replies : List (Reply α)) : List α := replies.filterMap returnedItem

section Steps

variable {capacity : Nat} {held : List α}

theorem step_push_of_lt (x : α) (hlt : held.length < capacity) :
    step capacity held (.push x) = some (held ++ [x], [.pushed true]) := if_pos hlt

theorem step_push_of_le (x : α) (hle : capacity ≤ held.length) :
    step capacity held (.push x) = some (held, [.pushed false]) := if_neg (Nat.not_lt.mpr hle)

theorem step_total (capacity : Nat) (held : List α) (c : Call α) :
    ∃ r, step capacity held c = some r := by
  cases c with
  | push x =>
      rcases Nat.lt_or_ge held.length capacity with hlt | hle
      · exact ⟨_, step_push_of_lt x hlt⟩
      · exact ⟨_, step_push_of_le x hle⟩
  | pop => cases held <;> exact ⟨_, rfl⟩

/-- A step replies once, and keeps the balance of its queue. -/
theorem step_balance {held' : List α} {c : Call α} {out : List (Reply α)}
    (hstep : step capacity held c = some (held', out)) :
    ∃ reply, out = [reply] ∧
      held ++ (acceptedItem (c, reply)).toList = (returnedItem reply).toList ++ held' := by
  cases c with
  | push x =>
      rcases Nat.lt_or_ge held.length capacity with hlt | hle
      · cases (step_push_of_lt x hlt).symm.trans hstep
        exact ⟨_, rfl, rfl⟩
      · cases (step_push_of_le x hle).symm.trans hstep
        exact ⟨_, rfl, List.append_nil held⟩
  | pop =>
      cases held with
      | nil => cases hstep; exact ⟨_, rfl, rfl⟩
      | cons x rest => cases hstep; exact ⟨_, rfl, List.append_nil _⟩

end Steps

theorem accepted_concat {calls : List (Call α)} {replies : List (Reply α)}
    (hlength : calls.length = replies.length) (c : Call α) (reply : Reply α) :
    accepted (calls ++ [c]) (replies ++ [reply]) =
      accepted calls replies ++ (acceptedItem (c, reply)).toList := by
  unfold accepted
  rw [List.zip_append hlength, List.filterMap_append]
  rcases hitem : acceptedItem (c, reply) with _ | x <;> simp [hitem]

theorem returned_concat (replies : List (Reply α)) (reply : Reply α) :
    returned (replies ++ [reply]) = returned replies ++ (returnedItem reply).toList := by
  unfold returned
  rw [List.filterMap_append]
  rcases hitem : returnedItem reply with _ | x <;> simp [hitem]

/-- **Nothing is lost, overwritten or returned twice**: what was accepted is what was returned,
    in that order, followed by what is held. -/
theorem accepted_eq_returned_append {capacity : Nat} {held : List α} {calls : List (Call α)}
    {replies : List (Reply α)}
    (hrun : Machine.run (step capacity) [] calls = some (held, replies)) :
    accepted calls replies = returned replies ++ held := by
  suffices hall : calls.length = replies.length ∧
      accepted calls replies = returned replies ++ held from hall.2
  refine Machine.run_invariant (I := fun calls replies held =>
    calls.length = replies.length ∧ accepted calls replies = returned replies ++ held)
    ⟨rfl, rfl⟩ ?_ hrun
  rintro calls replies held c held' out ⟨hlength, hbalance⟩ hstep
  obtain ⟨reply, rfl, hitem⟩ := step_balance hstep
  refine ⟨by simp [hlength], ?_⟩
  calc accepted (calls ++ [c]) (replies ++ [reply])
      = returned replies ++ (held ++ (acceptedItem (c, reply)).toList) := by
        rw [accepted_concat hlength, hbalance, List.append_assoc]
    _ = returned (replies ++ [reply]) ++ held' := by
        rw [hitem, returned_concat, List.append_assoc]

end BoundedFifo
