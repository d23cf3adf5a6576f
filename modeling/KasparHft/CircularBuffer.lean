import Mathlib.Data.List.Basic
import Mathlib.Tactic.Common

/-!
# Circular buffers

`boost::circular_buffer`, whose code is that of a library: a buffer of fixed capacity, its
operations, and what is documented of them in terms of its items, oldest first.  A push into a
full buffer overwrites the oldest item; a buffer of capacity zero is full and empty at once, and a
push leaves it as it is.  Reading or popping an empty buffer is undefined; reading it is `none`
here, and nothing is assumed of what popping it leaves.

Lists that fit the capacity are such buffers, `Boost.lists`.
-/

universe u

class Boost where
  CircularBuffer (n : Nat) (α : Type u) : Type u
  /-- From `begin()` to `end()`. -/
  items {n : Nat} {α : Type u} (cb : CircularBuffer n α) : List α
  new {n : Nat} {α : Type u} : CircularBuffer n α
  empty {n : Nat} {α : Type u} (cb : CircularBuffer n α) : Bool
  full {n : Nat} {α : Type u} (cb : CircularBuffer n α) : Bool
  size {n : Nat} {α : Type u} (cb : CircularBuffer n α) : Nat
  front? {n : Nat} {α : Type u} (cb : CircularBuffer n α) : Option α
  back? {n : Nat} {α : Type u} (cb : CircularBuffer n α) : Option α
  pushBack {n : Nat} {α : Type u} (cb : CircularBuffer n α) (x : α) : CircularBuffer n α
  popFront {n : Nat} {α : Type u} (cb : CircularBuffer n α) : CircularBuffer n α
  popBack {n : Nat} {α : Type u} (cb : CircularBuffer n α) : CircularBuffer n α
  fits {n : Nat} {α : Type u} (cb : CircularBuffer n α) : (items cb).length ≤ n
  items_new {n : Nat} {α : Type u} : items (new : CircularBuffer n α) = []
  empty_eq {n : Nat} {α : Type u} (cb : CircularBuffer n α) : empty cb = (items cb).isEmpty
  full_iff {n : Nat} {α : Type u} {cb : CircularBuffer n α} :
    full cb = true ↔ (items cb).length = n
  size_eq {n : Nat} {α : Type u} (cb : CircularBuffer n α) : size cb = (items cb).length
  front?_eq {n : Nat} {α : Type u} (cb : CircularBuffer n α) : front? cb = (items cb).head?
  back?_eq {n : Nat} {α : Type u} (cb : CircularBuffer n α) : back? cb = (items cb).getLast?
  pushBack_eq {n : Nat} {α : Type u} (cb : CircularBuffer n α) (x : α) :
    items (pushBack cb x) =
      if (items cb).length = n then (items cb ++ [x]).tail else items cb ++ [x]
  items_popFront {n : Nat} {α : Type u} {cb : CircularBuffer n α} (hsome : items cb ≠ []) :
    items (popFront cb) = (items cb).tail
  items_popBack {n : Nat} {α : Type u} {cb : CircularBuffer n α} (hsome : items cb ≠ []) :
    items (popBack cb) = (items cb).dropLast

namespace Boost

section Operations

variable [Boost.{u}] {n : Nat} {α : Type u} {cb : CircularBuffer n α}

attribute [simp] items_new empty_eq full_iff size_eq front?_eq back?_eq items_popFront
  items_popBack

/-- What a push leaves out of the buffer: the oldest item of a full one. -/
def overwritten (cb : CircularBuffer n α) (x : α) : List α :=
  if full cb then (items cb ++ [x]).head?.toList else []

theorem full_eq_false_iff : full cb = false ↔ (items cb).length < n := by
  rw [← Bool.not_eq_true, full_iff]
  exact ⟨Nat.lt_of_le_of_ne (fits cb), Nat.ne_of_lt⟩

/-- A push that finds room keeps every item. -/
theorem items_pushBack (x : α) (hroom : (items cb).length < n) :
    items (pushBack cb x) = items cb ++ [x] := by
  rw [pushBack_eq, if_neg (Nat.ne_of_lt hroom)]

theorem overwritten_eq_nil (x : α) (hroom : (items cb).length < n) :
    overwritten cb x = [] :=
  if_neg (by simpa using Nat.ne_of_lt hroom)

end Operations

/-! ### Lists -/

variable {n : Nat} {α : Type u} {items : List α}

def pushItems (n : Nat) (items : List α) (x : α) : List α :=
  if items.length = n then (items ++ [x]).tail else items ++ [x]

theorem pushItems_fits (x : α) (hfits : items.length ≤ n) :
    (pushItems n items x).length ≤ n := by
  unfold pushItems
  split
  · simpa using hfits
  next hfree =>
      rw [List.length_append]
      exact Nat.lt_of_le_of_ne hfits hfree

theorem tail_fits (hfits : items.length ≤ n) : items.tail.length ≤ n := by
  simpa using Nat.le_trans (Nat.sub_le _ 1) hfits

theorem dropLast_fits (hfits : items.length ≤ n) : items.dropLast.length ≤ n := by
  simpa using Nat.le_trans (Nat.sub_le _ 1) hfits

/-- The lists of at most `n` items. -/
@[reducible] def lists : Boost.{u} where
  CircularBuffer n α := { items : List α // items.length ≤ n }
  items cb := cb.1
  new := ⟨[], Nat.zero_le _⟩
  empty cb := cb.1.isEmpty
  full {n _} cb := cb.1.length == n
  size cb := cb.1.length
  front? cb := cb.1.head?
  back? cb := cb.1.getLast?
  pushBack {n _} cb x := ⟨pushItems n cb.1 x, pushItems_fits x cb.2⟩
  popFront cb := ⟨cb.1.tail, tail_fits cb.2⟩
  popBack cb := ⟨cb.1.dropLast, dropLast_fits cb.2⟩
  fits cb := cb.2
  items_new := rfl
  empty_eq _ := rfl
  full_iff := beq_iff_eq
  size_eq _ := rfl
  front?_eq _ := rfl
  back?_eq _ := rfl
  pushBack_eq _ _ := rfl
  items_popFront _ := rfl
  items_popBack _ := rfl

end Boost
