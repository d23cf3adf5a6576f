import KasparHft.RoundRobin
import Mathlib.Algebra.GroupWithZero.Nat
import Mathlib.Data.List.TakeDrop

/-!
# The sharded mailbox (`actors/ShardedBQueue.hpp`)

A push goes to the lane of the push cursor, which wraps at `2 ^ 64`.  `pop` looks for an item from
the pull cursor on and moves the cursor past the lane it took from; `pop_batch` rotates over the
lanes from the pull cursor, which it leaves where it is.  Calls are taken one at a time: a drain
that finds every lane empty waits, so it is no complete call.

No drain loses or repeats an item.  Arrival order needs the pull cursor at the lane of the oldest
item, or no lane of an item held between the cursor and that lane.
-/

namespace KasparHft.ShardedBQueue

open RoundRobin
open Machine (part)

variable {α : Type*}

structure Queue (α : Type*) where
  lanes : List (List α)
  pushCursor : Nat := 0
  pullCursor : Nat := 0
deriving DecidableEq, Repr

inductive Call (α : Type*) where
  | push (x : α)
  | pop
  | popBatch
deriving DecidableEq, Repr

inductive Reply (α : Type*) where
  | pushed
  | popped (x : α) (last : Bool)
  | batch (out : List α)
deriving DecidableEq, Repr

/-! ### The code -/

def kMaxDrain : Nat := 8192

def new (lanes : Nat) : Queue α := { lanes := List.replicate (if lanes = 0 then 1 else lanes) [] }

def anyNonempty (lanes : List (List α)) : Bool := lanes.any fun dq => !dq.isEmpty

def push (q : Queue α) (x : α) : Queue α :=
  let lane := q.pushCursor % q.lanes.length
  { q with
    pushCursor := (q.pushCursor + 1) % 2 ^ 64
    lanes := q.lanes.set lane (q.lanes.getD lane [] ++ [x]) }

/-- Rotate until a pass takes nothing or the cap is reached. -/
def drain (order : List Nat) : Nat → List (List α) → List α → Option (List (List α) × List α)
  | 0, _, _ => none
  | fuel + 1, lanes, out =>
      let pass := rotate order lanes
      if pass.2 = [] ∨ kMaxDrain ≤ (out ++ pass.2).length then some (pass.1, out ++ pass.2)
      else drain order fuel pass.1 (out ++ pass.2)

def popBatch (q : Queue α) : Option (Queue α × List α) :=
  match drain (rotation q.lanes.length q.pullCursor) (kMaxDrain + 1) q.lanes [] with
  | none => none
  | some (lanes, out) => if out = [] then none else some ({ q with lanes := lanes }, out)

def laneNonempty (q : Queue α) (j : Nat) : Bool :=
  !(q.lanes.getD ((q.pullCursor + j) % q.lanes.length) []).isEmpty

def pop (q : Queue α) : Option (Queue α × α × Bool) :=
  match (List.range q.lanes.length).find? (laneNonempty q) with
  | none => none
  | some j =>
      match q.lanes.getD ((q.pullCursor + j) % q.lanes.length) [] with
      | [] => none
      | x :: dq =>
          let lanes := q.lanes.set ((q.pullCursor + j) % q.lanes.length) dq
          some ({ q with lanes := lanes, pullCursor := (q.pullCursor + j + 1) % q.lanes.length },
            x, !anyNonempty lanes)

/-- One complete call, with its reply. -/
def step (q : Queue α) : Call α → Option (Queue α × List (Reply α))
  | .push x => some (push q x, [.pushed])
  | .pop => (pop q).map fun r => (r.1, [.popped r.2.1 r.2.2])
  | .popBatch => (popBatch q).map fun r => (r.1, [.batch r.2])

/-! ### What goes in and what comes out -/

def pushedItem : Call α → Option α
  | .push x => some x
  | .pop => none
  | .popBatch => none

def drainedItems : Reply α → List α
  | .pushed => []
  | .popped x _ => [x]
  | .batch out => out

def pushed (calls : List (Call α)) : List α := calls.filterMap pushedItem

def drained (replies : List (Reply α)) : List α := replies.flatMap drainedItems

theorem drained_concat (replies : List (Reply α)) (reply : Reply α) :
    drained (replies ++ [reply]) = drained replies ++ drainedItems reply := by
  unfold drained
  rw [List.flatMap_append, List.flatMap_singleton]

theorem pushed_concat (calls : List (Call α)) (c : Call α) :
    pushed (calls ++ [c]) = pushed calls ++ (pushedItem c).toList := by
  unfold pushed
  rw [List.filterMap_append]
  cases c <;> rfl

/-- Items held. -/
def length (q : Queue α) : Nat := (q.lanes.map List.length).sum

/-- The number, wrapped as the push cursor is, of the push that brought the oldest item held. -/
def oldest (q : Queue α) : Nat := (q.pushCursor + (2 ^ 64 - length q % 2 ^ 64)) % 2 ^ 64

/-- How far the lane of the oldest item is from the pull cursor. -/
def offset (q : Queue α) : Nat :=
  (oldest q % q.lanes.length + (q.lanes.length - q.pullCursor)) % q.lanes.length

/-- The push cursor did not jump lanes at its wrap among the items held, and the pull cursor is at
    the lane of the oldest of them or the lanes they are in end before it comes round to it. -/
def Aligned (q : Queue α) : Prop :=
  (q.lanes.length ∣ 2 ^ 64 ∨ oldest q + length q ≤ 2 ^ 64) ∧
    (offset q = 0 ∨ offset q + length q ≤ q.lanes.length)

instance (q : Queue α) : Decidable (Aligned q) := inferInstanceAs (Decidable (_ ∧ _))

/-- A drain is made in line with the order of arrival. -/
def InLine (q : Queue α) : Call α → Prop
  | .push _ => True
  | .pop => Aligned q
  | .popBatch => Aligned q

instance (q : Queue α) : (c : Call α) → Decidable (InLine q c)
  | .push _ => isTrue trivial
  | .pop => inferInstanceAs (Decidable (Aligned q))
  | .popBatch => inferInstanceAs (Decidable (Aligned q))

/-! ### A batch is finite -/

theorem drain_succ (order : List Nat) (fuel : Nat) (lanes : List (List α)) (out : List α) :
    drain order (fuel + 1) lanes out =
      if (rotate order lanes).2 = [] ∨ kMaxDrain ≤ (out ++ (rotate order lanes).2).length then
        some ((rotate order lanes).1, out ++ (rotate order lanes).2)
      else drain order fuel (rotate order lanes).1 (out ++ (rotate order lanes).2) := rfl

/-- Every pass but the last takes an item, so the cap ends the loop. -/
theorem drain_returns (order : List Nat) (fuel : Nat) (lanes : List (List α)) (out : List α)
    (hcap : out.length ≤ kMaxDrain) (hfuel : kMaxDrain < fuel + out.length) :
    ∃ r, drain order fuel lanes out = some r := by
  induction fuel generalizing lanes out with
  | zero => omega
  | succ fuel ih =>
      rw [drain_succ]
      split
      · exact ⟨_, rfl⟩
      · next hgo =>
        rw [not_or] at hgo
        have hsome := List.length_pos_iff.mpr hgo.1
        refine ih _ _ (Nat.le_of_not_le hgo.2) ?_
        rw [List.length_append]
        omega

theorem drain_perm (order : List Nat) (fuel : Nat) {lanes lanes' : List (List α)}
    {out out' : List α} (hdrain : drain order fuel lanes out = some (lanes', out')) :
    (out ++ lanes.flatten).Perm (out' ++ lanes'.flatten) := by
  induction fuel generalizing lanes out with
  | zero => cases hdrain
  | succ fuel ih =>
      have hpass : (out ++ lanes.flatten).Perm
          (out ++ (rotate order lanes).2 ++ (rotate order lanes).1.flatten) := by
        rw [List.append_assoc]
        exact (rotate_perm order lanes).append_left out
      rw [drain_succ] at hdrain
      split at hdrain
      · cases hdrain
        exact hpass
      · exact hpass.trans (ih hdrain)

theorem drain_extends (order : List Nat) (fuel : Nat) {lanes lanes' : List (List α)}
    {out out' : List α} (hdrain : drain order fuel lanes out = some (lanes', out')) :
    (out ++ (rotate order lanes).2) <+: out' := by
  induction fuel generalizing lanes out with
  | zero => cases hdrain
  | succ fuel ih =>
      rw [drain_succ] at hdrain
      split at hdrain
      · cases hdrain
        exact List.prefix_refl _
      · exact (List.prefix_append _ _).trans (ih hdrain)

theorem drain_length (order : List Nat) (fuel : Nat) {lanes lanes' : List (List α)}
    {out out' : List α} (hdrain : drain order fuel lanes out = some (lanes', out')) :
    lanes'.length = lanes.length := by
  induction fuel generalizing lanes out with
  | zero => cases hdrain
  | succ fuel ih =>
      rw [drain_succ] at hdrain
      split at hdrain
      · cases hdrain
        exact rotate_length order lanes
      · exact (ih hdrain).trans (rotate_length order lanes)

/-! ### Calls return -/

/-- A call on a queue that holds an item does not wait. -/
theorem step_returns {q : Queue α} (hheld : q.lanes.flatten ≠ []) (c : Call α) :
    ∃ r, step q c = some r := by
  obtain ⟨x, hx⟩ := List.exists_mem_of_ne_nil _ hheld
  obtain ⟨lane, hlane, hxlane⟩ := List.mem_flatten.mp hx
  obtain ⟨i, hi, hget⟩ := List.mem_iff_getElem.mp hlane
  obtain ⟨y, dq, hdq⟩ := List.exists_cons_of_ne_nil (List.ne_nil_of_mem hxlane)
  have hfront : q.lanes[i]? = some (y :: dq) := by
    rw [List.getElem?_eq_getElem hi, hget, hdq]
  have hmem : i ∈ rotation q.lanes.length q.pullCursor := mem_rotation _ hi
  cases c with
  | push x => exact ⟨_, rfl⟩
  | pop =>
      obtain ⟨j, hj, hji⟩ := List.mem_map.mp hmem
      have hnonempty : laneNonempty q j = true := by
        unfold laneNonempty
        rw [hji, List.getD_eq_getElem?_getD, hfront]
        rfl
      obtain ⟨m, hfind⟩ : ∃ m, (List.range q.lanes.length).find? (laneNonempty q) = some m :=
        Option.isSome_iff_exists.mp (List.find?_isSome.mpr ⟨j, hj, hnonempty⟩)
      have hfound := List.find?_some hfind
      unfold laneNonempty at hfound
      show ∃ r, (pop q).map _ = some r
      unfold pop
      rw [hfind]
      rcases hlast : q.lanes.getD ((q.pullCursor + m) % q.lanes.length) [] with _ | ⟨z, dq'⟩
      · rw [hlast] at hfound
        cases hfound
      · simp only [hlast]
        exact ⟨_, rfl⟩
  | popBatch =>
      obtain ⟨⟨lanes, out⟩, hdrain⟩ := drain_returns (rotation q.lanes.length q.pullCursor)
        (kMaxDrain + 1) q.lanes [] (Nat.zero_le _) (Nat.lt_succ_self _)
      have hout : out ≠ [] := by
        rintro rfl
        have hnone := List.prefix_nil.mp (drain_extends _ _ hdrain)
        exact rotate_progresses hmem hfront hnone
      refine ⟨({ q with lanes := lanes }, [.batch out]), ?_⟩
      show (popBatch q).map _ = _
      unfold popBatch
      rw [hdrain]
      simp only [if_neg hout, Option.map_some]

/-! ### Exactly once -/

theorem pop_inversion {q q' : Queue α} {x : α} {last : Bool} (hpop : pop q = some (q', x, last)) :
    ∃ j dq, (List.range q.lanes.length).find? (laneNonempty q) = some j ∧
      q.lanes[(q.pullCursor + j) % q.lanes.length]? = some (x :: dq) ∧
      q' = { q with
        lanes := q.lanes.set ((q.pullCursor + j) % q.lanes.length) dq
        pullCursor := (q.pullCursor + j + 1) % q.lanes.length } := by
  unfold pop at hpop
  split at hpop
  · cases hpop
  · next j hfind =>
    split at hpop
    · cases hpop
    · next y dq hlane =>
      cases hpop
      refine ⟨j, dq, hfind, ?_, rfl⟩
      rw [List.getD_eq_getElem?_getD] at hlane
      rcases hget : q.lanes[(q.pullCursor + j) % q.lanes.length]? with _ | dq'
      · rw [hget] at hlane; cases hlane
      · rw [hget] at hlane; exact congrArg some hlane

theorem popBatch_inversion {q q' : Queue α} {out : List α}
    (hpop : popBatch q = some (q', out)) :
    ∃ lanes, drain (rotation q.lanes.length q.pullCursor) (kMaxDrain + 1) q.lanes [] =
        some (lanes, out) ∧ q' = { q with lanes := lanes } := by
  unfold popBatch at hpop
  split at hpop
  · cases hpop
  · next lanes out' hdrain =>
    split at hpop
    · cases hpop
    · cases hpop
      exact ⟨lanes, hdrain, rfl⟩

theorem perm_of_push {lanes : List (List α)} {i : Nat} (hi : i < lanes.length) (x : α) :
    (lanes.flatten ++ [x]).Perm (lanes.set i (lanes.getD i [] ++ [x])).flatten := by
  induction lanes generalizing i with
  | nil => cases hi
  | cons lane lanes ih =>
      cases i with
      | zero =>
          simp only [List.set_cons_zero, List.getD_cons_zero, List.flatten_cons, List.append_assoc]
          exact List.perm_append_comm.append_left lane
      | succ i =>
          simp only [List.set_cons_succ, List.getD_cons_succ, List.flatten_cons, List.append_assoc]
          exact (ih (Nat.lt_of_succ_lt_succ hi)).append_left lane

/-- What a step does to the items held, whatever their order. -/
theorem step_perm {q q' : Queue α} {c : Call α} {out : List (Reply α)}
    (hlanes : 0 < q.lanes.length) (hstep : step q c = some (q', out)) :
    ∃ reply, out = [reply] ∧ q'.lanes.length = q.lanes.length ∧
      (q.lanes.flatten ++ (pushedItem c).toList).Perm (drainedItems reply ++ q'.lanes.flatten) := by
  cases c with
  | push x =>
      cases hstep
      exact ⟨_, rfl, List.length_set, perm_of_push (Nat.mod_lt q.pushCursor hlanes) x⟩
  | pop =>
      obtain ⟨⟨q₁, x, last⟩, hpop, heq⟩ := Option.map_eq_some_iff.mp hstep
      cases heq
      obtain ⟨j, dq, -, hfront, rfl⟩ := pop_inversion hpop
      refine ⟨_, rfl, List.length_set, ?_⟩
      rw [pushedItem, Option.toList_none, List.append_nil]
      exact perm_of_front hfront
  | popBatch =>
      obtain ⟨⟨q₁, items⟩, hpop, heq⟩ := Option.map_eq_some_iff.mp hstep
      cases heq
      obtain ⟨lanes, hdrain, rfl⟩ := popBatch_inversion hpop
      refine ⟨_, rfl, drain_length _ _ hdrain, ?_⟩
      rw [pushedItem, Option.toList_none, List.append_nil]
      exact drain_perm _ _ hdrain

theorem new_lanes_pos (lanes : Nat) : 0 < (new lanes : Queue α).lanes.length := by
  show 0 < (List.replicate _ _).length
  rw [List.length_replicate]
  split <;> omega

/-- **Each item comes out at most once**, and what has not come out is held, in every run. -/
theorem pushed_perm {lanes : Nat} {q : Queue α} {calls : List (Call α)}
    {replies : List (Reply α)} (hrun : Machine.run step (new lanes) calls = some (q, replies)) :
    (pushed calls).Perm (drained replies ++ q.lanes.flatten) := by
  suffices hall : 0 < q.lanes.length ∧
      (pushed calls).Perm (drained replies ++ q.lanes.flatten) from hall.2
  refine Machine.run_invariant (I := fun calls replies q =>
    0 < q.lanes.length ∧ (pushed calls).Perm (drained replies ++ q.lanes.flatten))
    ⟨new_lanes_pos lanes, ?_⟩ ?_ hrun
  · exact (Holds.start (α := α) _).perm
  · rintro calls replies q c q' out ⟨hpos, hperm⟩ hstep
    obtain ⟨reply, rfl, hlength, hkept⟩ := step_perm hpos hstep
    refine ⟨hlength ▸ hpos, ?_⟩
    rw [pushed_concat, drained_concat, List.append_assoc]
    have hpushed := hperm.append_right (pushedItem c).toList
    rw [List.append_assoc] at hpushed
    exact hpushed.trans (hkept.append_left _)

/-! ### In order -/

/-- Items marked with the lanes their pushes went to, the first by push number `first`. -/
def placed (n : Nat) : Nat → List α → List (Nat × α)
  | _, [] => []
  | first, x :: items => (first % 2 ^ 64 % n, x) :: placed n (first + 1) items

theorem placed_concat (n first : Nat) (items : List α) (x : α) :
    placed n first (items ++ [x]) =
      placed n first items ++ [((first + items.length) % 2 ^ 64 % n, x)] := by
  induction items generalizing first with
  | nil => rfl
  | cons y items ih =>
      have hnext : first + 1 + items.length = first + (y :: items).length := by
        rw [List.length_cons]; omega
      rw [List.cons_append, placed, ih, hnext]
      rfl

theorem placed_drop (n first k : Nat) (items : List α) :
    (placed n first items).drop k = placed n (first + k) (items.drop k) := by
  induction items generalizing first k with
  | nil => cases k <;> rfl
  | cons x items ih =>
      cases k with
      | zero => rfl
      | succ k => exact (ih (first + 1) k).trans (congrArg (placed n · _) (by omega))

/-- Where the push cursor does not jump lanes among them, items are in consecutive lanes. -/
theorem placed_eq_mark {n first : Nat} {items : List α}
    (hwrap : n ∣ 2 ^ 64 ∨ first % 2 ^ 64 + items.length ≤ 2 ^ 64) :
    placed n first items = mark n (first % 2 ^ 64) items := by
  induction items generalizing first with
  | nil => rfl
  | cons x items ih =>
      have hnext : (first + 1) % 2 ^ 64 % n = (first % 2 ^ 64 + 1) % n ∨ items = [] := by
        rcases hwrap with hdvd | hle
        · left
          rw [Nat.mod_mod_of_dvd _ hdvd, Nat.add_mod, ← Nat.mod_mod_of_dvd first hdvd,
            ← Nat.add_mod]
        · rcases items with _ | ⟨y, items⟩
          · exact Or.inr rfl
          · left
            rw [List.length_cons, List.length_cons] at hle
            exact congrArg (· % n) (by omega)
      have hwrap' : n ∣ 2 ^ 64 ∨ (first + 1) % 2 ^ 64 + items.length ≤ 2 ^ 64 := by
        rw [List.length_cons] at hwrap
        refine hwrap.imp_right fun hle => ?_
        omega
      rw [placed, mark, ih hwrap']
      rcases hnext with hmod | rfl
      · exact congrArg _ (mark_congr hmod items)
      · rfl

/-- The queue holds `held`, in this order of arrival, the oldest from push number `first`. -/
structure Represents (first : Nat) (held : List α) (q : Queue α) : Prop where
  lanes : Holds (placed q.lanes.length first held) q.lanes
  pushCursor : q.pushCursor = (first + held.length) % 2 ^ 64
  pullCursor : q.pullCursor < q.lanes.length

section Order

variable {first : Nat} {held : List α} {q : Queue α}

theorem placed_snd (n first : Nat) (items : List α) :
    (placed n first items).map Prod.snd = items := by
  induction items generalizing first with
  | nil => rfl
  | cons x items ih => rw [placed, List.map_cons, ih]

theorem Represents.perm (h : Represents first held q) : held.Perm q.lanes.flatten := by
  have hperm := h.lanes.perm
  rwa [placed_snd] at hperm

theorem Represents.length_eq (h : Represents first held q) : length q = held.length := by
  unfold length
  rw [← List.length_flatten]
  exact h.perm.length_eq.symm

theorem Represents.oldest_eq (h : Represents first held q) : oldest q = first % 2 ^ 64 := by
  unfold oldest
  rw [h.length_eq, h.pushCursor]
  omega

/-- An aligned queue holds its items in consecutive lanes, `offset` lanes from the pull cursor. -/
theorem Represents.placed_of_aligned (h : Represents first held q) (haligned : Aligned q) :
    placed q.lanes.length first held = mark q.lanes.length (q.pullCursor + offset q) held := by
  have hwrap := haligned.1
  rw [h.oldest_eq, h.length_eq] at hwrap
  rw [placed_eq_mark hwrap]
  refine mark_congr ?_ held
  have hturn : q.pullCursor + (first % 2 ^ 64 % q.lanes.length + (q.lanes.length - q.pullCursor)) =
      first % 2 ^ 64 % q.lanes.length + q.lanes.length := by
    have := h.pullCursor
    omega
  unfold offset
  rw [h.oldest_eq, Nat.add_mod_mod, hturn, Nat.add_mod_right, Nat.mod_mod]

theorem push_represents (h : Represents first held q) (x : α) :
    Represents first (held ++ [x]) (push q x) := by
  have hlane : q.pushCursor % q.lanes.length < q.lanes.length :=
    Nat.mod_lt _ (Nat.zero_lt_of_lt h.pullCursor)
  have hlength : (push q x).lanes.length = q.lanes.length := List.length_set
  constructor
  case lanes =>
    have hget : q.lanes.getD (q.pushCursor % q.lanes.length) [] =
        part (q.pushCursor % q.lanes.length) (placed q.lanes.length first held) := by
      rw [List.getD_eq_getElem?_getD, h.lanes.lane _ hlane, Option.getD_some]
    have hpushed := h.lanes.push hlane x
    rw [hlength, placed_concat, ← h.pushCursor]
    rwa [← hget] at hpushed
  case pushCursor =>
    show (q.pushCursor + 1) % 2 ^ 64 = _
    rw [h.pushCursor, List.length_append, Nat.mod_add_mod]
    rfl
  case pullCursor =>
    rw [hlength]
    exact h.pullCursor

/-- **A pop from an aligned queue** takes the oldest item. -/
theorem pop_represents {q' : Queue α} {x : α} {last : Bool} (h : Represents first held q)
    (haligned : Aligned q) (hpop : pop q = some (q', x, last)) :
    ∃ rest, held = x :: rest ∧ Represents (first + 1) rest q' := by
  have hn : 0 < q.lanes.length := Nat.zero_lt_of_lt h.pullCursor
  have hmarks := h.placed_of_aligned haligned
  obtain ⟨j, dq, hfind, hfront, rfl⟩ := pop_inversion hpop
  obtain ⟨hfound, hj, hbefore⟩ := List.find?_range_eq_some.mp hfind
  cases held with
  | nil =>
      have hlane := h.lanes.lane _ (Nat.mod_lt (q.pullCursor + j) hn)
      cases hfront.symm.trans hlane
  | cons y rest =>
      have hoffset : offset q < q.lanes.length := Nat.mod_lt _ hn
      have hlanes : Holds (((q.pullCursor + offset q) % q.lanes.length, y) ::
          placed q.lanes.length (first + 1) rest) q.lanes := by
        have hhead := h.lanes
        rw [placed] at hhead
        rw [mark, placed] at hmarks
        rwa [(List.cons.inj hmarks).1] at hhead
      -- no lane before the one of the oldest item holds anything
      have hjo : j = offset q := by
        rcases Nat.lt_trichotomy j (offset q) with hlt | heq | hgt
        · have hfits : offset q + (y :: rest).length ≤ q.lanes.length := by
            rw [← h.length_eq]
            exact haligned.2.resolve_left (Nat.ne_of_gt (Nat.zero_lt_of_lt hlt))
          have hnone := part_eq_nil (notMem_mark_of_lt q.pullCursor hfits hlt)
          have hlane := h.lanes.lane _ (Nat.mod_lt (q.pullCursor + j) hn)
          rw [hmarks, hnone] at hlane
          cases hfront.symm.trans hlane
        · exact heq
        · have hempty := hbefore (offset q) hgt
          unfold laneNonempty at hempty
          rw [List.getD_eq_getElem?_getD, hlanes.front] at hempty
          cases hempty
      subst hjo
      cases hlanes.front.symm.trans hfront
      refine ⟨rest, rfl, ?_, ?_, ?_⟩
      · show Holds (placed (q.lanes.set _ _).length _ _) _
        rw [List.length_set]
        exact hlanes.take
      · rw [h.pushCursor, List.length_cons]
        exact congrArg (· % 2 ^ 64) (by omega)
      · show _ < (q.lanes.set _ _).length
        rw [List.length_set]
        exact Nat.mod_lt _ hn

/-- Passes from the lane of the oldest item take the items in order. -/
theorem drain_in_turn {n base : Nat} (fuel : Nat) {items : List α} {lanes lanes' : List (List α)}
    {out out' : List α} (hholds : Holds (mark n base items) lanes)
    (hdrain : drain (rotation n base) fuel lanes out = some (lanes', out')) :
    ∃ k, out' = out ++ items.take k ∧ Holds ((mark n base items).drop k) lanes' := by
  induction fuel generalizing items lanes out with
  | zero => cases hdrain
  | succ fuel ih =>
      obtain ⟨htaken, hrest⟩ := rotate_turn hholds
      have hdrop : mark n base (items.drop n) = (mark n base items).drop n := by
        rw [mark_drop]
        exact mark_congr (Nat.add_mod_right base n).symm _
      rw [drain_succ, htaken] at hdrain
      split at hdrain
      · cases hdrain
        exact ⟨n, rfl, hdrop ▸ hrest⟩
      · obtain ⟨k, rfl, hleft⟩ := ih hrest hdrain
        refine ⟨n + k, ?_, ?_⟩
        · rw [List.append_assoc, List.take_add]
        · rw [← List.drop_drop, ← hdrop]
          exact hleft

/-- A batch from an aligned queue is the oldest items, in order. -/
theorem drain_aligned (h : Represents first held q) (haligned : Aligned q)
    {lanes : List (List α)} {out : List α}
    (hdrain : drain (rotation q.lanes.length q.pullCursor) (kMaxDrain + 1) q.lanes [] =
      some (lanes, out)) :
    ∃ k, out = held.take k ∧ Holds ((placed q.lanes.length first held).drop k) lanes := by
  have hmarks := h.placed_of_aligned haligned
  have hholds := h.lanes
  rw [hmarks] at hholds ⊢
  rcases haligned.2 with hzero | hfits
  · rw [hzero, Nat.add_zero] at hholds ⊢
    exact drain_in_turn _ hholds hdrain
  · rw [h.length_eq] at hfits
    obtain ⟨htaken, hrest⟩ := rotate_all hholds hfits
    -- nothing is left for the passes after the first
    have hnone : ∀ k, (mark q.lanes.length (q.pullCursor + offset q) held).drop held.length =
        (mark q.lanes.length q.pullCursor ([] : List α)).drop k := by
      intro k
      rw [mark, List.drop_nil, mark_drop, List.drop_of_length_le (Nat.le_refl _), mark]
    rw [drain_succ, htaken] at hdrain
    split at hdrain
    · cases hdrain
      exact ⟨held.length, by rw [List.take_of_length_le (Nat.le_refl _)]; rfl, hnone 0 ▸ hrest⟩
    · have hempty : Holds (mark q.lanes.length q.pullCursor ([] : List α))
          (rotate (rotation q.lanes.length q.pullCursor) q.lanes).1 := hrest
      obtain ⟨k, rfl, hleft⟩ := drain_in_turn _ hempty hdrain
      refine ⟨held.length, ?_, hnone k ▸ hleft⟩
      rw [List.take_nil, List.append_nil, List.take_of_length_le (Nat.le_refl _)]
      rfl

theorem popBatch_represents {q' : Queue α} {out : List α} (h : Represents first held q)
    (haligned : Aligned q) (hpop : popBatch q = some (q', out)) :
    ∃ first' rest, held = out ++ rest ∧ Represents first' rest q' := by
  obtain ⟨lanes, hdrain, rfl⟩ := popBatch_inversion hpop
  have hlength := drain_length _ _ hdrain
  obtain ⟨k, rfl, hholds⟩ := drain_aligned h haligned hdrain
  rw [placed_drop] at hholds
  -- what is taken may be fewer than `k` items
  have hleft :
      Represents (first + (held.take k).length) (held.drop k) { q with lanes := lanes } := by
    constructor
    case lanes =>
      rw [hlength]
      rcases Nat.le_total k held.length with hle | hge
      · rw [List.length_take, Nat.min_eq_left hle]
        exact hholds
      · rw [List.drop_of_length_le hge] at hholds ⊢
        exact hholds
    case pushCursor =>
      show q.pushCursor = _
      rw [h.pushCursor, List.length_drop, List.length_take]
      exact congrArg (· % 2 ^ 64) (by omega)
    case pullCursor =>
      show q.pullCursor < lanes.length
      rw [hlength]
      exact h.pullCursor
  exact ⟨_, _, (List.take_append_drop k held).symm, hleft⟩

/-- What a step in line with the order of arrival does. -/
theorem step_represents {q' : Queue α} {c : Call α} {out : List (Reply α)}
    (h : Represents first held q) (hline : InLine q c) (hstep : step q c = some (q', out)) :
    ∃ first' held', Represents first' held' q' ∧
      held ++ (pushedItem c).toList = drained out ++ held' := by
  cases c with
  | push x =>
      cases hstep
      exact ⟨first, held ++ [x], push_represents h x, rfl⟩
  | pop =>
      obtain ⟨⟨q₁, x, last⟩, hpop, heq⟩ := Option.map_eq_some_iff.mp hstep
      cases heq
      obtain ⟨rest, rfl, hrest⟩ := pop_represents h hline hpop
      exact ⟨first + 1, rest, hrest, List.append_nil _⟩
  | popBatch =>
      obtain ⟨⟨q₁, items⟩, hpop, heq⟩ := Option.map_eq_some_iff.mp hstep
      cases heq
      obtain ⟨first', rest, rfl, hrest⟩ := popBatch_represents h hline hpop
      refine ⟨first', rest, hrest, ?_⟩
      rw [pushedItem, Option.toList_none, List.append_nil]
      exact congrArg (· ++ rest) (List.append_nil items).symm

end Order

theorem new_represents (lanes : Nat) : Represents 0 [] (new lanes : Queue α) where
  lanes := Holds.start _
  pushCursor := rfl
  pullCursor := new_lanes_pos lanes

/-- **Arrival order**: in a run whose drains are all made from an aligned queue, what came out is
    what went in, in that order, up to the items still held. -/
theorem drained_in_order {lanes : Nat} {q : Queue α} {calls : List (Call α)}
    {replies : List (Reply α)} (hline : Machine.AllSteps step InLine (new lanes) calls)
    (hrun : Machine.run step (new lanes) calls = some (q, replies)) :
    ∃ held, pushed calls = drained replies ++ held ∧ held.Perm q.lanes.flatten := by
  suffices hall : ∃ first held, Represents first held q ∧
      pushed calls = drained replies ++ held by
    obtain ⟨first, held, h, horder⟩ := hall
    exact ⟨held, horder, h.perm⟩
  refine Machine.run_induction (I := fun calls replies q =>
    ∃ first held, Represents first held q ∧ pushed calls = drained replies ++ held)
    ⟨0, [], new_represents lanes, rfl⟩ ?_ hline hrun
  rintro calls replies q c q' out ⟨first, held, h, horder⟩ hc hstep
  obtain ⟨first', held', h', hkept⟩ := step_represents h hc hstep
  refine ⟨first', held', h', ?_⟩
  rw [pushed_concat, horder, List.append_assoc, hkept, ← List.append_assoc]
  exact congrArg (· ++ held') List.flatMap_append.symm

/-- A pop, two pushes and a batch: the batch starts at the lane after the one popped from. -/
theorem drained_in_order_pop_then_batch :
    ∃ held, pushed [.push 1, .pop, .push 2, .push 3, .popBatch] =
        drained [.pushed, .popped 1 true, .pushed, .pushed, .batch [2, 3]] ++ held ∧
      held.Perm (⟨[[], []], 3, 1⟩ : Queue Nat).lanes.flatten :=
  have hline : Machine.AllSteps step InLine (new 2 : Queue Nat)
      [.push 1, .pop, .push 2, .push 3, .popBatch] := by decide
  drained_in_order hline (by decide)

/-- A batch leaves the pull cursor where it was, so the next drain starts at the wrong lane. -/
theorem popBatch_then_pop_out_of_order :
    ∃ (q : Queue Nat) (replies : List (Reply Nat)),
      Machine.run step (new 2) [.push 1, .popBatch, .push 2, .push 3, .pop] = some (q, replies) ∧
      ¬ ∃ held, pushed [.push 1, .popBatch, .push 2, .push 3, .pop] = drained replies ++ held ∧
        held.Perm q.lanes.flatten := by
  refine
    ⟨⟨[[], [2]], 3, 1⟩, [.pushed, .batch [1], .pushed, .pushed, .popped 3 false], by decide, ?_⟩
  rintro ⟨held, horder, -⟩
  cases horder

end KasparHft.ShardedBQueue
