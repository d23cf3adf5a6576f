import KasparHft.SomLifecycle
import Mathlib.Data.Rat.Floor

/-!
# Positions

The net position of a trader in a symbol is the initial one plus the signed sizes, in
whole contracts, of the fills that arrive while their order is held.  An order is held
from the request that was accepted under its id until its reject, or its cancel ack that
leaves nothing; a fill, a partial cancel ack or a new order does not end it.  The orders
map holds exactly these orders, and `fill_handler` logs and drops a fill whose order it
does not find.
-/

namespace KasparHft.Som

open AssocMap Machine Pos

variable {c : Cfg} {s s' : State} {o out : List Sent} {es : List Event}

/-! ### Whole contracts -/

theorem toInt_nonneg {q : ℚ} (hq : 0 ≤ q) : 0 ≤ toInt q :=
  Int.tdiv_nonneg (Rat.num_nonneg.mpr hq) (Int.natCast_nonneg _)

theorem toInt_le {q : ℚ} (hq : 0 ≤ q) : (toInt q : ℚ) ≤ q := by
  have hfloor : toInt q = ⌊q⌋ := by
    rw [toInt, Int.tdiv_eq_ediv_of_nonneg (Rat.num_nonneg.mpr hq), Rat.floor_def']
  rw [hfloor]
  exact Int.floor_le q

/-! ### One message -/

/-- Every position of the order manager is on one side. -/
def State.AllOneSided (s : State) : Prop :=
  ∀ trader sym, (s.pos trader sym).OneSided

/-- The net size of a position. -/
def State.net (s : State) (trader sym : ℕ) : ℤ :=
  Pos.net (s.pos trader sym).openPositions

theorem getPos_eq_net (h : s.AllOneSided) (trader sym : ℕ) :
    s.getPos sym trader = some (s.net trader sym) :=
  Position.totalSize_oneSided (h trader sym)

/-- What a message adds to a position: a restored position, or a fill of the trader in the
    symbol whose order is held. -/
def contribution (trader sym : ℕ) (held : UInt32 → Bool) : Event → ℤ
  | .fill f =>
      if f.owner = trader ∧ f.sym = sym ∧ held f.id then f.side.sign * toInt f.sz else 0
  | .positionResponse t y position => if t = trader ∧ y = sym then position else 0
  | _ => 0

/-- Messages that touch neither positions nor limits. -/
def Event.LeavesPositions : Event → Prop
  | .fill _ => False
  | .positionResponse .. => False
  | .readLimits .. => False
  | _ => True

/-- The positions and limits of `s` are those of `s'`. -/
structure SamePositions (s s' : State) : Prop where
  pos : s'.pos = s.pos
  posLimit : s'.posLimit = s.posLimit

theorem SamePositions.refl (s : State) : SamePositions s s :=
  ⟨rfl, rfl⟩

theorem orderHandler_samePositions {m : Order} (h : s.orderHandler c m = some (s', o)) :
    SamePositions s s' := by
  obtain ⟨-, rfl, -⟩ | ⟨-, n, o₂, o₃, hacc⟩ := orderHandler_cases h
  · exact .refl _
  · have hassign : SamePositions s (s.assignId m).1 := by
      by_cases hneg : m.oid < 0
      · rw [assignId_of_neg hneg]
        exact ⟨rfl, rfl⟩
      · rw [assignId_of_nonneg hneg]
        exact .refl _
    obtain ⟨-, rfl, -⟩ | ⟨-, -, rfl, -⟩ | ⟨-, -, -, rfl, -⟩ | ⟨-, -, om, -, rfl, -⟩ :=
      placeOrder_cases hacc.placed
    · exact hassign
    · exact hassign
    · exact hassign
    · exact ⟨hassign.pos, hassign.posLimit⟩

theorem step_samePositions {e : Event} (he : e.LeavesPositions)
    (h : step c s e = some (s', o)) : SamePositions s s' := by
  cases e with
  | order m => exact orderHandler_samePositions h
  | cancel id ts =>
      obtain ⟨o₁, ord, hir, -⟩ := internalReject_spec c s id
      simp only [step, State.cancHandler, hir] at h
      cases ord with
      | none =>
          cases h
          exact .refl s
      | some ord =>
          obtain ⟨o₂, -, heq⟩ := Option.map_eq_some_iff.mp h
          cases heq
          exact .refl s
  | cancAck id fillsz sz =>
      simp only [step, State.cancAckHandler] at h
      split at h
      · cases h
        exact .refl s
      · by_cases hsz : sz ≤ 0
        · simp only [hsz, if_true, Option.some.injEq, Prod.mk.injEq] at h
          obtain ⟨rfl, -⟩ := h
          exact ⟨rfl, rfl⟩
        · simp only [hsz, if_false, Option.some.injEq, Prod.mk.injEq] at h
          obtain ⟨rfl, -⟩ := h
          exact .refl s
  | cancReject id reason ordStatus =>
      simp only [step, State.cancRejHandler] at h
      split at h
      · cases h
        exact .refl s
      · split_ifs at h
        all_goals
          cases h
          exact .refl s
  | ack id =>
      simp only [step, State.ackHandler] at h
      split at h
      · cases h
      · split_ifs at h
        · cases h
          exact ⟨rfl, rfl⟩
        · obtain ⟨o₁, -, heq⟩ := Option.map_eq_some_iff.mp h
          cases heq
          exact ⟨rfl, rfl⟩
        · cases h
          exact ⟨rfl, rfl⟩
  | reject id reason =>
      simp only [step, State.rejHandler] at h
      split at h
      · cases h
        exact .refl s
      · cases h
        exact ⟨rfl, rfl⟩
  | fillSub sender =>
      cases h
      exact ⟨rfl, rfl⟩
  | stop =>
      obtain ⟨o₁, -, heq⟩ := Option.map_eq_some_iff.mp h
      cases heq
      exact ⟨rfl, rfl⟩
  | start =>
      cases h
      exact ⟨rfl, rfl⟩
  | exitPos venu =>
      simp only [step, State.exitHandler] at h
      split_ifs at h
      split at h
      · cases h
        exact ⟨rfl, rfl⟩
      · cases h
  | setExchManager venue manager =>
      cases h
      exact ⟨rfl, rfl⟩
  | cancAll sender =>
      obtain ⟨o₁, -, heq⟩ := Option.map_eq_some_iff.mp h
      cases heq
      exact .refl s
  | fill f => cases he
  | positionResponse trader sym position => cases he
  | readLimits sender posLimit sizeLimit => cases he

theorem setPos_pos (s : State) (trader sym : ℕ) (p : Position) (t y : ℕ) :
    (s.setPos trader sym p).pos t y = if t = trader ∧ y = sym then p else s.pos t y := by
  simp only [State.setPos]
  by_cases ht : t = trader
  · subst ht
    by_cases hy : y = sym
    · subst hy
      simp
    · simp [hy]
  · simp [ht]

/-- Booking an entry on one position moves that position by the entry's signed size and no
    other. -/
theorem setPos_addToPosition {s₁ : State} (h : s₁.AllOneSided) {trader sym : ℕ}
    {e : PosEntry} {p : Position} (hsz : 0 ≤ e.sz)
    (hp : (s₁.pos trader sym).addToPosition e = some p) :
    (s₁.setPos trader sym p).AllOneSided ∧ ∀ t y,
      (s₁.setPos trader sym p).net t y =
        s₁.net t y + if t = trader ∧ y = sym then e.tradeType.sign * e.sz else 0 := by
  obtain ⟨p', hp', hone, hnet⟩ := Position.addToPosition_spec (h trader sym) hsz
  rw [hp] at hp'
  cases hp'
  constructor
  · intro t y
    rw [setPos_pos]
    split_ifs
    · exact hone
    · exact h t y
  · intro t y
    simp only [State.net, setPos_pos]
    split_ifs with hty
    · obtain ⟨rfl, rfl⟩ := hty
      exact hnet
    · rw [Int.add_zero]

/-- The ids in the orders map. -/
def State.inMap (s : State) (id : UInt32) : Bool :=
  (s.orders.lookup id).isSome

/-- **One message moves a position by its contribution.** -/
theorem step_net (hone : s.AllOneSided) {e : Event} (h : step c s e = some (s', o)) :
    s'.AllOneSided ∧ ∀ t y, s'.net t y = s.net t y + contribution t y s.inMap e := by
  by_cases he : e.LeavesPositions
  · have hsame := step_samePositions he h
    refine ⟨fun t y => by rw [hsame.pos]; exact hone t y, fun t y => ?_⟩
    have hzero : contribution t y s.inMap e = 0 := by
      cases e <;> first | rfl | cases he
    rw [hzero, Int.add_zero, State.net, State.net, hsame.pos]
  · cases e with
    | fill f =>
        obtain ⟨hsz, ⟨hnone, rfl, -⟩ | ⟨ord, p, hord, hp, rfl, -⟩⟩ := fillHandler_cases h
        · refine ⟨hone, fun t y => ?_⟩
          simp [contribution, State.inMap, hnone]
        · have hmid : ({ s with orders := s.orders.insert f.id (ord.afterFill f) } :
              State).AllOneSided := hone
          obtain ⟨hone', hnet⟩ := setPos_addToPosition hmid (toInt_nonneg hsz.le) hp
          refine ⟨hone', fun t y => ?_⟩
          rw [hnet]
          simp only [contribution, State.inMap, hord, Option.isSome_some, and_true, State.net]
          simp only [eq_comm]
    | positionResponse trader sym position =>
        simp only [step, State.positionResponseHandler] at h
        by_cases hzero : position = 0
        · rw [if_pos hzero] at h
          cases h
          refine ⟨hone, fun t y => ?_⟩
          simp [contribution, hzero]
        · rw [if_neg hzero] at h
          obtain ⟨p, hp, heq⟩ := Option.map_eq_some_iff.mp h
          cases heq
          obtain ⟨hone', hnet⟩ := setPos_addToPosition hone (abs_nonneg position) hp
          refine ⟨hone', fun t y => ?_⟩
          rw [hnet]
          simp only [contribution]
          have hsigned : (if 0 < position then Side.buy else Side.sel).sign * |position| =
              position := by
            rcases lt_trichotomy position 0 with hneg | hz | hpos
            · rw [if_neg (by omega), abs_of_neg hneg, Side.sign_sel]
              ring
            · exact absurd hz hzero
            · rw [if_pos hpos, abs_of_pos hpos, Side.sign_buy, one_mul]
          rw [hsigned]
          simp only [eq_comm]
    | readLimits sender posLimit sizeLimit =>
        cases h
        exact ⟨hone, fun t y => (Int.add_zero _).symm⟩
    | _ => exact absurd trivial he

/-! ### Held orders -/

/-- The id under which a message goes to a venue's manager. -/
def Sent.managerId (x : Sent) : Option UInt32 :=
  match x.msg with
  | .order m => some m.oid.toUInt32
  | _ => none

def managerIds (o : List Sent) : List UInt32 :=
  o.filterMap Sent.managerId

theorem CancelsOnly.managerIds_eq (h : CancelsOnly o) : managerIds o = [] := by
  refine List.filterMap_eq_nil_iff.mpr ?_
  intro x hx
  have hcancel := h x hx
  obtain ⟨dest, msg⟩ := x
  cases msg <;> simp_all [Msg.IsCancel, Sent.managerId]

/-- The id under which a message that was answered with `o` has an order held: a request
    within limits without an id is held under the id it is acked with, one that comes with
    an id under the id with which it goes to a venue's manager. -/
def heldId (c : Cfg) (s : State) (e : Event) (o : List Sent) : Option UInt32 :=
  match e with
  | .order m =>
      if s.checkLimit c m = some false then
        if m.oid < 0 then (ackIds o).head? else (managerIds o).head?
      else none
  | _ => none

/-- The messages from the venue after which the order `id` is not held any more. -/
def Event.Drops (id : UInt32) : Event → Prop
  | .reject id' _ => id' = id
  | .cancAck id' _ sz => id' = id ∧ sz ≤ 0
  | _ => False

instance (id : UInt32) (e : Event) : Decidable (e.Drops id) :=
  match e with
  | .reject id' _ => inferInstanceAs (Decidable (id' = id))
  | .cancAck id' _ sz => inferInstanceAs (Decidable (id' = id ∧ sz ≤ 0))
  | .order .. | .cancel .. | .cancReject .. | .ack .. | .fill .. | .fillSub .. | .stop
  | .start | .exitPos .. | .setExchManager .. | .cancAll .. | .readLimits ..
  | .positionResponse .. => isFalse not_false

/-- The held ids after a message that was answered with `o`. -/
def heldNext (c : Cfg) (s : State) (e : Event) (o : List Sent) (held : UInt32 → Bool) :
    UInt32 → Bool :=
  fun id => decide (heldId c s e o = some id) || (held id && !decide (e.Drops id))

/-- After the messages `es` from `s` an order is held under `id`: one of them had it held,
    and none since dropped it. -/
def HeldAfter (c : Cfg) (s : State) (es : List Event) (id : UInt32) : Prop :=
  ∃ before e after m out m' o, es = before ++ e :: after ∧
    run (step c) s before = some (m, out) ∧ step c m e = some (m', o) ∧
    heldId c m e o = some id ∧ ∀ e' ∈ after, ¬ e'.Drops id

theorem lookup_insert_isSome {m : Map UInt32 Order} {k id : UInt32} {r : Order} :
    ((m.insert k r).lookup id).isSome ↔ id = k ∨ (m.lookup id).isSome := by
  by_cases hid : id = k
  · subst hid
    simp
  · rw [AList.lookup_insert_ne hid]
    simp [hid]

/-- Writing a stored order back changes no membership. -/
theorem inMap_insert {k id : UInt32} {q r : Order} (hq : s.orders.lookup k = some q) :
    ((s.orders.insert k r).lookup id).isSome ↔ s.inMap id = true := by
  rw [lookup_insert_isSome, State.inMap]
  constructor
  · rintro (rfl | h)
    · rw [hq]
      rfl
    · exact h
  · exact .inr

/-- **An accepted order is held under its id.** -/
theorem Accepted.inMap_iff {m n : Order} {o₂ o₃ : List Sent} (h : Accepted c s m s' o n o₂ o₃)
    (hlim : s.checkLimit c m = some false) (id : UInt32) :
    s'.inMap id = true ↔ heldId c s (.order m) o = some id ∨ s.inMap id = true := by
  have hmgr : managerIds o = managerIds o₃ := by
    have hcancels := h.cancels.managerIds_eq
    rw [h.sent]
    simp only [managerIds, List.filterMap_cons, List.filterMap_append] at hcancels ⊢
    simp [Sent.managerId, hcancels]
  simp only [heldId, hlim, if_true, h.ackIds_eq.1, hmgr, List.head?_cons]
  by_cases hneg : m.oid < 0
  · -- stored under the next id, and once more on the way to a manager
    have hn : n.oid.toUInt32 = s.currId := by
      rcases h.request with rfl | rfl <;> rw [assignId_of_neg hneg] <;> rfl
    have hplaced := h.placed
    rw [assignId_of_neg hneg] at hplaced
    rw [if_pos hneg, hn, Option.some.injEq]
    obtain ⟨-, rfl, -⟩ | ⟨-, -, rfl, -⟩ | ⟨-, -, -, rfl, -⟩ | ⟨-, -, om, -, rfl, -⟩ :=
      placeOrder_cases hplaced
    · rw [State.inMap, lookup_insert_isSome, eq_comm]
      rfl
    · rw [State.inMap, lookup_insert_isSome, eq_comm]
      rfl
    · rw [State.inMap, lookup_insert_isSome, eq_comm]
      rfl
    · rw [State.inMap, hn, lookup_insert_isSome, lookup_insert_isSome, ← or_assoc, or_self,
        eq_comm]
      rfl
  · have hplaced := h.placed
    rw [assignId_of_nonneg hneg] at hplaced
    rw [if_neg hneg]
    obtain ⟨-, rfl, rfl⟩ | ⟨-, -, rfl, book, rfl⟩ | ⟨-, -, -, rfl, rfl⟩ |
      ⟨-, -, om, -, rfl, rfl⟩ := placeOrder_cases hplaced
    · simp [managerIds, Sent.managerId]
    · simp [managerIds, Sent.managerId]
    · simp [managerIds]
    · rw [State.inMap, lookup_insert_isSome, eq_comm]
      simp [managerIds, Sent.managerId, Order.forwarded, State.inMap]

/-- What a message that is no order does to the map. -/
inductive MapMove (s s' : State) (e : Event) : Prop
  | same (hords : s'.orders = s.orders)
      (hdrops : ∀ id, e.Drops id → s.orders.lookup id = none)
  | stored (id : UInt32) (q r : Order) (hq : s.orders.lookup id = some q)
      (hords : s'.orders = s.orders.insert id r) (hdrops : ∀ id, ¬ e.Drops id)
  | dropped (id : UInt32) (hords : s'.orders = s.orders.erase id)
      (hdrops : ∀ id', e.Drops id' ↔ id = id')

/-- A message that drops nothing and leaves the map alone. -/
theorem MapMove.leaves {e : Event} (hords : s'.orders = s.orders) (hdrops : ∀ id, ¬ e.Drops id) :
    MapMove s s' e :=
  .same hords fun id h => absurd h (hdrops id)

theorem MapMove.inMap_iff {e : Event} (h : MapMove s s' e) (id : UInt32) :
    s'.inMap id = true ↔ s.inMap id = true ∧ ¬ e.Drops id := by
  cases h with
  | same hords hdrops =>
      rw [State.inMap, State.inMap, hords]
      refine ⟨fun hin => ⟨hin, fun hdrop => ?_⟩, And.left⟩
      rw [hdrops id hdrop] at hin
      cases hin
  | stored k q r hq hords hdrops =>
      rw [State.inMap, hords, inMap_insert hq]
      exact ⟨fun hin => ⟨hin, hdrops id⟩, And.left⟩
  | dropped k hords hdrops =>
      rw [State.inMap, State.inMap, hords, hdrops]
      by_cases hid : id = k
      · subst hid
        simp
      · simp [AList.lookup_erase_ne hid, Ne.symm hid]

theorem cancHandler_moves {id : UInt32} {ts : ℕ}
    (h : step c s (.cancel id ts) = some (s', o)) : MapMove s s' (.cancel id ts) := by
  obtain ⟨o₁, ord, hir, -⟩ := internalReject_spec c s id
  simp only [step, State.cancHandler, hir] at h
  cases ord with
  | none =>
      cases h
      exact .leaves rfl fun _ => not_false
  | some ord =>
      obtain ⟨o₂, -, heq⟩ := Option.map_eq_some_iff.mp h
      cases heq
      exact .leaves rfl fun _ => not_false

theorem cancAckHandler_moves {id : UInt32} {fillsz sz : ℤ}
    (h : step c s (.cancAck id fillsz sz) = some (s', o)) :
    MapMove s s' (.cancAck id fillsz sz) := by
  simp only [step, State.cancAckHandler] at h
  split at h
  next hnone =>
    cases h
    refine .same rfl ?_
    rintro _ ⟨rfl, -⟩
    exact hnone
  next =>
    by_cases hsz : sz ≤ 0
    · simp only [hsz, if_true, Option.some.injEq, Prod.mk.injEq] at h
      obtain ⟨rfl, -⟩ := h
      exact .dropped id rfl fun _ => and_iff_left hsz
    · simp only [hsz, if_false, Option.some.injEq, Prod.mk.injEq] at h
      obtain ⟨rfl, -⟩ := h
      exact .leaves rfl fun _ hdrops => hsz hdrops.2

theorem cancRejHandler_moves {id : UInt32} {reason ordStatus : ℤ}
    (h : step c s (.cancReject id reason ordStatus) = some (s', o)) :
    MapMove s s' (.cancReject id reason ordStatus) := by
  simp only [step, State.cancRejHandler] at h
  split at h
  · cases h
    exact .leaves rfl fun _ => not_false
  · split_ifs at h
    all_goals
      cases h
      exact .leaves rfl fun _ => not_false

theorem ackHandler_moves {id : UInt32} (h : step c s (.ack id) = some (s', o)) :
    MapMove s s' (.ack id) := by
  simp only [step, State.ackHandler] at h
  split at h
  · cases h
  next order hord =>
    split_ifs at h
    · cases h
      exact .stored id order _ hord rfl fun _ => not_false
    · obtain ⟨o₁, -, heq⟩ := Option.map_eq_some_iff.mp h
      cases heq
      exact .stored id order _ hord rfl fun _ => not_false
    · cases h
      exact .stored id order _ hord rfl fun _ => not_false

theorem rejHandler_moves {id : UInt32} {reason : ℤ}
    (h : step c s (.reject id reason) = some (s', o)) : MapMove s s' (.reject id reason) := by
  simp only [step, State.rejHandler] at h
  split at h
  next hnone =>
    cases h
    refine .same rfl ?_
    rintro _ rfl
    exact hnone
  next =>
    cases h
    exact .dropped id rfl fun _ => Iff.rfl

theorem fillHandler_moves {f : Fill} (h : step c s (.fill f) = some (s', o)) :
    MapMove s s' (.fill f) := by
  obtain ⟨-, ⟨-, rfl, -⟩ | ⟨ord, p, hord, -, rfl, -⟩⟩ := fillHandler_cases h
  · exact .leaves rfl fun _ => not_false
  · exact .stored f.id ord _ hord rfl fun _ => not_false

theorem exitHandler_moves {venu : ℕ} (h : step c s (.exitPos venu) = some (s', o)) :
    MapMove s s' (.exitPos venu) := by
  simp only [step, State.exitHandler] at h
  split_ifs at h
  split at h
  · cases h
    exact .leaves rfl fun _ => not_false
  · cases h

theorem positionResponseHandler_moves {trader sym : ℕ} {position : ℤ}
    (h : step c s (.positionResponse trader sym position) = some (s', o)) :
    MapMove s s' (.positionResponse trader sym position) := by
  simp only [step, State.positionResponseHandler] at h
  by_cases hzero : position = 0
  · rw [if_pos hzero] at h
    cases h
    exact .leaves rfl fun _ => not_false
  · rw [if_neg hzero] at h
    obtain ⟨p, -, heq⟩ := Option.map_eq_some_iff.mp h
    cases heq
    exact .leaves rfl fun _ => not_false

/-- **A message that is no order** drops one order at most. -/
theorem step_moves {e : Event} (he : e.NotOrder) (h : step c s e = some (s', o)) :
    MapMove s s' e := by
  cases e with
  | order m => cases he
  | cancel id ts => exact cancHandler_moves h
  | cancAck id fillsz sz => exact cancAckHandler_moves h
  | cancReject id reason ordStatus => exact cancRejHandler_moves h
  | ack id => exact ackHandler_moves h
  | reject id reason => exact rejHandler_moves h
  | fill f => exact fillHandler_moves h
  | exitPos venu => exact exitHandler_moves h
  | positionResponse trader sym position => exact positionResponseHandler_moves h
  | stop | cancAll sender =>
      obtain ⟨o₁, -, heq⟩ := Option.map_eq_some_iff.mp h
      cases heq
      exact .leaves rfl fun _ => not_false
  | fillSub sender | start | setExchManager venue manager
  | readLimits sender posLimit sizeLimit =>
      cases h
      exact .leaves rfl fun _ => not_false

/-- **One message moves the held orders as the messages say.** -/
theorem step_inMap {e : Event} (h : step c s e = some (s', o)) (id : UInt32) :
    s'.inMap id = true ↔ heldId c s e o = some id ∨ (s.inMap id = true ∧ ¬ e.Drops id) := by
  by_cases he : e.NotOrder
  · have hnone : heldId c s e o = none := by
      cases e <;> first | rfl | cases he
    rw [(step_moves he h).inMap_iff, hnone]
    simp
  · cases e with
    | order m =>
        have hdrops : ¬ Event.Drops id (.order m) := not_false
        obtain ⟨hlim, rfl, -⟩ | ⟨hlim, n, o₂, o₃, hacc⟩ := orderHandler_cases h
        · simp [heldId, hlim, hdrops]
        · rw [hacc.inMap_iff hlim]
          simp [hdrops]
    | _ => exact absurd trivial he

theorem step_heldNext {e : Event} (h : step c s e = some (s', o)) :
    s'.inMap = heldNext c s e o s.inMap := by
  funext id
  rw [Bool.eq_iff_iff, step_inMap h]
  simp [heldNext]

/-! ### Runs -/

/-- **The orders map is what the messages hold.** -/
theorem inMap_iff_heldAfter (hords : s.orders = ∅) (hrun : run (step c) s es = some (s', out))
    (id : UInt32) : s'.inMap id = true ↔ HeldAfter c s es id := by
  refine (run_invariant (I := fun past os m => run (step c) s past = some (m, os) ∧
    (m.inMap id = true ↔ HeldAfter c s past id)) ⟨rfl, ?_⟩ ?_ hrun).2
  · rw [State.inMap, hords]
    constructor
    · intro hin
      cases hin
    · rintro ⟨before, e, after, m, out, m', o, hsplit, -⟩
      simp at hsplit
  · rintro past os m e m' o ⟨hpast, hI⟩ hstep
    refine ⟨run_concat.mpr ⟨m, os, o, hpast, hstep, rfl⟩, ?_⟩
    rw [step_inMap hstep, hI]
    constructor
    · rintro (hopen | ⟨⟨before, e₁, after, m₁, out₁, m₂, o₁, rfl, hb, hs, hid, hkept⟩, hdrops⟩)
      · exact ⟨past, e, [], m, os, m', o, rfl, hpast, hstep, hopen, fun _ he => by cases he⟩
      · refine ⟨before, e₁, after ++ [e], m₁, out₁, m₂, o₁, by simp, hb, hs, hid, ?_⟩
        intro e' he'
        rcases List.mem_append.mp he' with he' | he'
        · exact hkept e' he'
        · rw [List.mem_singleton.mp he']
          exact hdrops
    · rintro ⟨before, e₁, after, m₁, out₁, m₂, o₁, hsplit, hb, hs, hid, hkept⟩
      rcases List.eq_nil_or_concat after with rfl | ⟨after', e', rfl⟩
      · -- the last message is the one that had it held
        obtain ⟨rfl, he⟩ := List.append_inj' hsplit rfl
        cases he
        cases hpast.symm.trans hb
        cases hstep.symm.trans hs
        exact .inl hid
      · right
        rw [List.concat_eq_append, ← List.cons_append, ← List.append_assoc] at hsplit
        obtain ⟨rfl, he⟩ := List.append_inj' hsplit rfl
        cases he
        refine ⟨⟨before, e₁, after', m₁, out₁, m₂, o₁, rfl, hb, hs, hid, ?_⟩, ?_⟩
        · intro e'' he''
          exact hkept e'' (by simp [he''])
        · exact hkept e (by simp)

/-- What a run adds to a position, when the ids `held` are held at its start. -/
def booked (c : Cfg) (trader sym : ℕ) : (UInt32 → Bool) → State → List Event → ℤ
  | _, _, [] => 0
  | held, s, e :: es =>
      contribution trader sym held e +
        match step c s e with
        | none => 0
        | some (s', o) => booked c trader sym (heldNext c s e o held) s' es

theorem net_eq_booked (trader sym : ℕ) (hone : s.AllOneSided)
    (hrun : run (step c) s es = some (s', out)) :
    s'.AllOneSided ∧
      s'.net trader sym = s.net trader sym + booked c trader sym s.inMap s es := by
  induction es generalizing s out with
  | nil =>
      simp only [run_nil, Option.some.injEq, Prod.mk.injEq] at hrun
      obtain ⟨rfl, -⟩ := hrun
      exact ⟨hone, (Int.add_zero _).symm⟩
  | cons e es ih =>
      obtain ⟨s₁, o₁, os, hs, hr, -⟩ := run_cons.mp hrun
      obtain ⟨hone₁, hnet⟩ := step_net hone hs
      obtain ⟨hone', hrest⟩ := ih hone₁ hr
      refine ⟨hone', ?_⟩
      rw [hrest, hnet, step_heldNext hs]
      simp only [booked, hs, Int.add_assoc]

/-- **The position ledger.**  After every run from a state without orders, in any order of
    messages, a net position is the initial one plus what was restored and the fills whose
    order was held; and the orders held are those accepted and not dropped since, whatever
    was filled or cancelled in part. -/
theorem position_eq_booked {trader sym : ℕ} {p : ℤ} (hords : s.orders = ∅)
    (hone : s.AllOneSided) (hp : s.getPos sym trader = some p)
    (hrun : run (step c) s es = some (s', out)) :
    s'.getPos sym trader = some (p + booked c trader sym (fun _ => false) s es) ∧
      ∀ id, (s'.orders.lookup id).isSome ↔ HeldAfter c s es id := by
  refine ⟨?_, inMap_iff_heldAfter hords hrun⟩
  have hnone : s.inMap = fun _ => false := by
    funext id
    rw [State.inMap, hords]
    rfl
  obtain ⟨hone', hnet⟩ := net_eq_booked trader sym hone hrun
  rw [getPos_eq_net hone, Option.some.injEq] at hp
  rw [getPos_eq_net hone', hnet, hp, hnone]

/-- A fill of client 1's order with id 0. -/
def buyFill (sz left : ℤ) : Fill where
  id := 0
  venue := 0
  sym := 0
  px := 100
  side := .buy
  sz := sz
  stillToBeFilled := left
  owner := 0
  tim := 1

/-- Fills before and after a cancel ack that leaves some of the order, then the cancel ack
    of the rest and a fill that comes too late. -/
theorem position_of_partial_fills :
    ∃ s out, run (step smallCfg) limitTen [.order (buyOrder 1 5), .fill (buyFill 1 4),
        .cancAck 0 1 4, .fill (buyFill 2 2), .cancAck 0 2 0, .fill (buyFill 2 0)] =
      some (s, out) ∧ s.getPos 0 0 = some 3 := by
  have heval : (run (step smallCfg) limitTen [.order (buyOrder 1 5), .fill (buyFill 1 4),
      .cancAck 0 1 4, .fill (buyFill 2 2), .cancAck 0 2 0, .fill (buyFill 2 0)]).isSome =
      true := by decide +kernel
  obtain ⟨⟨s, out⟩, hrun⟩ := Option.isSome_iff_exists.mp heval
  refine ⟨s, out, hrun, ?_⟩
  rw [(position_eq_booked (p := 0) rfl (fun _ _ => oneSided_new) rfl hrun).1]
  decide +kernel

/-- The fills of a trader in a symbol for orders that were sent on. -/
def sentFills (trader sym : ℕ) (out : List Sent) (es : List Event) : ℤ :=
  (es.map fun e => match e with
    | .fill f =>
        if f.owner = trader ∧ f.sym = sym ∧ f.id ∈ forwardIds out then
          f.side.sign * toInt f.sz
        else 0
    | _ => 0).sum

/-- A fill that arrives after the cancel ack of its order is not booked: the position stays
    0 although 5 were bought. -/
theorem late_fill_not_booked :
    ∃ s out, run (step smallCfg) limitTen [.order (buyOrder 1 5), .cancAck 0 0 0,
        .fill (buyFill 5 0)] = some (s, out) ∧
      limitTen.getPos 0 0 = some 0 ∧ s.getPos 0 0 = some 0 ∧
      sentFills 0 0 out [.order (buyOrder 1 5), .cancAck 0 0 0, .fill (buyFill 5 0)] = 5 := by
  have heval : (run (step smallCfg) limitTen [.order (buyOrder 1 5), .cancAck 0 0 0,
      .fill (buyFill 5 0)]).map (fun r => (r.1.getPos 0 0,
        sentFills 0 0 r.2 [.order (buyOrder 1 5), .cancAck 0 0 0, .fill (buyFill 5 0)])) =
      some (some 0, 5) := by decide +kernel
  obtain ⟨⟨s, out⟩, hrun, heq⟩ := Option.map_eq_some_iff.mp heval
  simp only [Prod.mk.injEq] at heq
  exact ⟨s, out, hrun, rfl, heq.1, heq.2⟩

end KasparHft.Som
