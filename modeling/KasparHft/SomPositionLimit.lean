import KasparHft.SomPositions
import Mathlib.Tactic.Linarith

/-!
# The position limit

`order_handler` compares the position at that moment, without the orders already working,
with the limit.  A run keeps a position within its limit as long as an order that is
accepted while others of its trader, symbol and side have quantity left fits in beside
them; where nothing is working the check itself sees to it.

What is left of each order is not a fact the order manager keeps, so a ghost value records
it along the run: the size of an accepted order, less its fills.
-/

namespace KasparHft.Som

open AssocMap Machine Pos

variable {c : Cfg} {s s' : State} {o out : List Sent} {es : List Event} {trader sym : ℕ}

/-! ### What is left of an order -/

/-- The quantity left of each order id after a message. -/
def leftAfter (c : Cfg) (s : State) (e : Event) (left : UInt32 → ℚ) : UInt32 → ℚ :=
  match e with
  | .order m =>
      if s.checkLimit c m = some false then
        Function.update left (s.assignId m).2.oid.toUInt32 m.sz
      else left
  | .fill f =>
      if (s.orders.lookup f.id).isSome then Function.update left f.id (left f.id - f.sz) else left
  | _ => left

/-- The order manager with the quantities left beside it. -/
abbrev stepLeft (c : Cfg) :
    State × (UInt32 → ℚ) → Event → Option ((State × (UInt32 → ℚ)) × List Sent) :=
  withGhost (step c) (leftAfter c)

/-- An order of the trader in the symbol on the side. -/
structure Order.Of (r : Order) (trader sym : ℕ) (side : Side) : Prop where
  owner : r.owner = trader
  sym : r.sym = sym
  side : r.side = side

theorem Order.SameRequest.of {m n : Order} (h : m.SameRequest n) {side : Side}
    (hn : n.Of trader sym side) : m.Of trader sym side :=
  ⟨h.owner.trans hn.owner, h.sym.trans hn.sym, h.side.trans hn.side⟩

instance (r : Order) (trader sym : ℕ) (side : Side) : Decidable (r.Of trader sym side) :=
  decidable_of_iff (r.owner = trader ∧ r.sym = sym ∧ r.side = side)
    ⟨fun h => ⟨h.1, h.2.1, h.2.2⟩, fun h => ⟨h.owner, h.sym, h.side⟩⟩

/-! ### Conditions on a step -/

/-- A request comes without an id, and a fill is of its order's trader, symbol and side
    and within what is left of it. -/
def FillsWithinSize (sl : State × (UInt32 → ℚ)) : Event → Prop
  | .order m => m.oid < 0
  | .fill f => ∀ r, sl.1.orders.lookup f.id = some r →
      r.Of f.owner f.sym f.side ∧ f.sz ≤ sl.2 f.id
  | _ => True

instance (sl : State × (UInt32 → ℚ)) (e : Event) : Decidable (FillsWithinSize sl e) :=
  match e with
  | .order m => inferInstanceAs (Decidable (m.oid < 0))
  | .fill f => inferInstanceAs (Decidable (∀ r ∈ sl.1.orders.lookup f.id,
      r.Of f.owner f.sym f.side ∧ f.sz ≤ sl.2 f.id))
  | .cancel .. | .cancAck .. | .cancReject .. | .ack .. | .reject .. | .fillSub .. | .stop
  | .start | .exitPos .. | .setExchManager .. | .cancAll .. | .readLimits ..
  | .positionResponse .. => isTrue trivial

/-- The limit of the symbol is not changed and the position not restored. -/
def LimitStays (trader sym : ℕ) (sl : State × (UInt32 → ℚ)) : Event → Prop
  | .readLimits _ posLimit _ => posLimit sym = sl.1.posLimit sym
  | .positionResponse t y _ => ¬ (t = trader ∧ y = sym)
  | _ => True

/-- The quantity that the stored orders of a trader, a symbol and a side have left. -/
def State.workingSz (s : State) (left : UInt32 → ℚ) (trader sym : ℕ) (side : Side) : ℚ :=
  total (fun id r => if r.Of trader sym side then left id else 0) s.orders

/-- An order within limits that is accepted while orders of its trader, symbol and side have
    quantity left is within the position limit together with them. -/
def WorkingWithin (c : Cfg) (trader sym : ℕ) (sl : State × (UInt32 → ℚ)) : Event → Prop
  | .order m => sl.1.checkLimit c m = some false → m.Of trader sym m.side →
      sl.1.workingSz sl.2 trader sym m.side ≠ 0 →
      ((m.side.sign * sl.1.net trader sym : ℤ) : ℚ) + sl.1.workingSz sl.2 trader sym m.side +
        m.sz ≤ sl.1.posLimit sym
  | _ => True

instance (trader sym : ℕ) (sl : State × (UInt32 → ℚ)) (e : Event) :
    Decidable (WorkingWithin c trader sym sl e) :=
  match e with
  | .order m => inferInstanceAs (Decidable (sl.1.checkLimit c m = some false →
      m.Of trader sym m.side → sl.1.workingSz sl.2 trader sym m.side ≠ 0 → _ ≤ _))
  | .cancel .. | .cancAck .. | .cancReject .. | .ack .. | .reject .. | .fill .. | .fillSub ..
  | .stop | .start | .exitPos .. | .setExchManager .. | .cancAll .. | .readLimits ..
  | .positionResponse .. => isTrue trivial

/-! ### The working quantity -/

variable {left left' : UInt32 → ℚ} {side : Side} {id : UInt32} {q r : Order}

theorem workingSz_insert (hords : s'.orders = s.orders.insert id r)
    (hleft : ∀ k, k ≠ id → left' k = left k) :
    s'.workingSz left' trader sym side =
      (if r.Of trader sym side then left' id else 0) +
        total (fun k r => if r.Of trader sym side then left k else 0) (s.orders.erase id) := by
  rw [State.workingSz, hords, total_insert]
  congr 1
  refine total_congr fun k r hk => ?_
  have hne : k ≠ id := by
    rintro rfl
    rw [AList.lookup_erase] at hk
    cases hk
  rw [hleft k hne]

theorem workingSz_erase_le (hnonneg : ∀ k, 0 ≤ left k) :
    total (fun k r => if r.Of trader sym side then left k else 0) (s.orders.erase id) ≤
      s.workingSz left trader sym side := by
  rcases hid : s.orders.lookup id with _ | q
  · rw [total_erase_of_notMem (AList.lookup_eq_none.mp hid), State.workingSz]
  · rw [State.workingSz, ← total_erase_of_lookup hid]
    have hq : (0 : ℚ) ≤ if q.Of trader sym side then left id else 0 := by
      split_ifs
      · exact hnonneg id
      · exact le_rfl
    linarith

/-- Writing a stored order back as a later version of itself moves the working quantity of
    its side by what its quantity left moves. -/
theorem workingSz_rewrite (hq : s.orders.lookup id = some q)
    (hords : s'.orders = s.orders.insert id r) (hsame : q.SameRequest r)
    (hleft : ∀ k, k ≠ id → left' k = left k) :
    s'.workingSz left' trader sym side =
      s.workingSz left trader sym side +
        if q.Of trader sym side then left' id - left id else 0 := by
  have hof : r.Of trader sym side ↔ q.Of trader sym side :=
    ⟨hsame.of, fun h => ⟨hsame.owner ▸ h.owner, hsame.sym ▸ h.sym, hsame.side ▸ h.side⟩⟩
  rw [workingSz_insert hords hleft, State.workingSz, ← total_erase_of_lookup hq]
  simp only [hof]
  split_ifs
  · ring
  · ring

theorem workingSz_nonneg (hnonneg : ∀ k, 0 ≤ left k) :
    0 ≤ s.workingSz left trader sym side := by
  refine total_nonneg fun k r => ?_
  split_ifs
  · exact hnonneg k
  · exact le_rfl

/-- What is stored of a request counts for what the request counts. -/
theorem left_le_of_sameRequest (hnonneg : 0 ≤ left id) (hsame : q.SameRequest r) :
    (if r.Of trader sym side then left id else 0) ≤
      if q.Of trader sym side then left id else 0 := by
  by_cases hr : r.Of trader sym side
  · rw [if_pos hr, if_pos (hsame.of hr)]
  · rw [if_neg hr]
    split_ifs
    · exact hnonneg
    · exact le_rfl

/-- A message that stores no new order leaves no more working than there was. -/
theorem workingSz_le_of_continues (hnonneg : ∀ k, 0 ≤ left k)
    (hcont : ∀ id n, s'.orders.lookup id = some n →
      ∃ m, s.orders.lookup id = some m ∧ m.Continues n) :
    s'.workingSz left trader sym side ≤ s.workingSz left trader sym side := by
  refine total_le_total (fun k r => ?_) fun k r hr => ?_
  · split_ifs
    · exact hnonneg k
    · exact le_rfl
  · obtain ⟨q, hq, hqr⟩ := hcont k r hr
    exact ⟨q, hq, left_le_of_sameRequest (hnonneg k) hqr.same⟩

/-! ### The invariant -/

/-- On both sides the position is within the limit with all that is working filled. -/
structure Room (trader sym : ℕ) (lim : ℤ) (s : State) (left : UInt32 → ℚ) : Prop where
  oneSided : s.AllOneSided
  limit : s.posLimit sym = lim
  leftNonneg : ∀ id, 0 ≤ left id
  room : ∀ side : Side,
    ((side.sign * s.net trader sym : ℤ) : ℚ) + s.workingSz left trader sym side ≤ lim

theorem Room.within {lim : ℤ} (h : Room trader sym lim s left) (side : Side) :
    side.sign * s.net trader sym ≤ lim := by
  have hroom := h.room side
  have hworking : 0 ≤ s.workingSz left trader sym side := workingSz_nonneg h.leftNonneg
  exact_mod_cast (by linarith : ((side.sign * s.net trader sym : ℤ) : ℚ) ≤ lim)

/-- An order that passes the check leaves the position within the limit when filled. -/
theorem overLimit_eq_false {m : Order} {p : ℤ} (h : s.overLimit m p = false)
    (hlimit : 0 ≤ s.posLimit m.sym) :
    ((m.side.sign * p : ℤ) : ℚ) + m.sz ≤ s.posLimit m.sym := by
  simp only [State.overLimit, Bool.or_eq_false_iff] at h
  obtain ⟨hpos, -⟩ := h
  cases hside : m.side with
  | buy =>
      simp only [hside, hlimit, decide_true, Bool.true_and, decide_eq_false_iff_not, not_lt,
        Int.cast_zero, add_zero] at hpos
      simpa using hpos
  | sel =>
      simp only [hside, hlimit, decide_true, Bool.true_and, decide_eq_false_iff_not, not_lt,
        Int.cast_zero, sub_zero] at hpos
      simp only [Side.sign_sel, neg_mul, one_mul, Int.cast_neg]
      linarith

/-- A message that neither trades nor adds an order keeps the room. -/
theorem Room.quiet {lim : ℤ} (h : Room trader sym lim s left)
    (hcont : ∀ id n, s'.orders.lookup id = some n →
      ∃ m, s.orders.lookup id = some m ∧ m.Continues n)
    (hone : s'.AllOneSided) (hlimit : s'.posLimit sym = s.posLimit sym)
    (hnet : s'.net trader sym = s.net trader sym) : Room trader sym lim s' left where
  oneSided := hone
  limit := hlimit.trans h.limit
  leftNonneg := h.leftNonneg
  room side := by
    have hroom := h.room side
    have hle : s'.workingSz left trader sym side ≤ s.workingSz left trader sym side :=
      workingSz_le_of_continues h.leftNonneg hcont
    rw [hnet]
    linarith

theorem orderHandler_sz_pos {m : Order} (h : s.orderHandler c m = some (s', o)) : 0 < m.sz := by
  unfold State.orderHandler at h
  split_ifs at h with hbad
  exact lt_of_not_ge fun hle => hbad (.inl hle)

/-- What an accepted order leaves in the map is what was there, or the order itself under
    the id it was given. -/
theorem Accepted.stored_of_neg {m n : Order} {o₂ o₃ : List Sent}
    (h : Accepted c s m s' o n o₂ o₃) (hoid : m.oid < 0) {id : UInt32} {r : Order}
    (hr : s'.orders.lookup id = some r) :
    (id ≠ s.currId ∧ s.orders.lookup id = some r) ∨ (id = s.currId ∧ m.SameRequest r) := by
  have hn : n.oid.toUInt32 = s.currId := by
    rcases h.request with rfl | rfl <;> rw [assignId_of_neg hoid] <;> rfl
  have hfirst : ∀ id q, (s.assignId m).1.orders.lookup id = some q →
      (id ≠ s.currId ∧ s.orders.lookup id = some q) ∨ (id = s.currId ∧ m.SameRequest q) := by
    intro id q hq
    rw [assignId_of_neg hoid] at hq
    by_cases hid : id = s.currId
    · subst hid
      rw [AList.lookup_insert] at hq
      cases hq
      exact .inr ⟨rfl, ⟨rfl, rfl, rfl, rfl, rfl, rfl, rfl⟩⟩
    · rw [AList.lookup_insert_ne hid] at hq
      exact .inl ⟨hid, hq⟩
  rcases placeOrder_stored h.placed id r hr with hold | ⟨hid, hnr⟩
  · exact hfirst id r hold
  · refine .inr ⟨hid.trans hn, ?_⟩
    have hmn : m.SameRequest n := by
      obtain ⟨hsame, -⟩ := assignId_sameRequest s m
      rcases h.request with rfl | rfl
      · exact hsame
      · exact ⟨hsame.venue, hsame.sym, hsame.sz, hsame.px, hsame.side, hsame.owner, hsame.sender⟩
    exact hmn.trans hnr.same

/-- An accepted order adds no more than its size to what is working on its side, and
    nothing to what is working elsewhere. -/
theorem Accepted.workingSz_le {m n : Order} {o₂ o₃ : List Sent}
    (h : Accepted c s m s' o n o₂ o₃) (hoid : m.oid < 0) (hsz : 0 ≤ m.sz)
    (hnonneg : ∀ k, 0 ≤ left k) (side : Side) :
    s'.workingSz (Function.update left s.currId m.sz) trader sym side ≤
      s.workingSz left trader sym side + if m.Of trader sym side then m.sz else 0 := by
  have hnonneg' : ∀ k, 0 ≤ Function.update left s.currId m.sz k := by
    intro k
    by_cases hk : k = s.currId
    · rw [hk, Function.update_self]
      exact hsz
    · rw [Function.update_of_ne hk]
      exact hnonneg k
  -- what is stored is what was there, with the request written under its id
  have hstored : s'.workingSz (Function.update left s.currId m.sz) trader sym side ≤
      ({ s with orders := s.orders.insert s.currId m } : State).workingSz
        (Function.update left s.currId m.sz) trader sym side := by
    refine total_le_total (fun k r => ?_) fun k r hr => ?_
    · split_ifs
      · exact hnonneg' k
      · exact le_rfl
    · rcases h.stored_of_neg hoid hr with ⟨hk, hold⟩ | ⟨rfl, hmr⟩
      · exact ⟨r, by rw [AList.lookup_insert_ne hk, hold], le_rfl⟩
      · exact ⟨m, AList.lookup_insert _, left_le_of_sameRequest (hnonneg' _) hmr⟩
  have hinsert : ({ s with orders := s.orders.insert s.currId m } : State).workingSz
      (Function.update left s.currId m.sz) trader sym side =
      (if m.Of trader sym side then Function.update left s.currId m.sz s.currId else 0) +
        total (fun k r => if r.Of trader sym side then left k else 0)
          (s.orders.erase s.currId) :=
    workingSz_insert (s := s) rfl fun k hk => Function.update_of_ne hk _ _
  have herase : total (fun k r => if r.Of trader sym side then left k else 0)
      (s.orders.erase s.currId) ≤ s.workingSz left trader sym side := workingSz_erase_le hnonneg
  rw [hinsert, Function.update_self] at hstored
  linarith

/-- **Accepting an order keeps the room.**  Where its side has something working the
    condition says so, else the check does. -/
theorem Room.accept {lim : ℤ} (h : Room trader sym lim s left)
    {m n : Order} {o₂ o₃ : List Sent} (hcusip : c.isCusipAsset sym = false)
    (hnonneg : 0 ≤ lim) (hoid : m.oid < 0) (hsz : 0 < m.sz)
    (hlim : s.checkLimit c m = some false) (hacc : Accepted c s m s' o n o₂ o₃)
    (hsame : SamePositions s s') (hwork : WorkingWithin c trader sym (s, left) (.order m)) :
    Room trader sym lim s' (Function.update left s.currId m.sz) := by
  have hnet : s'.net trader sym = s.net trader sym := by
    rw [State.net, State.net, hsame.pos]
  have hfits : m.Of trader sym m.side →
      ((m.side.sign * s.net trader sym : ℤ) : ℚ) + s.workingSz left trader sym m.side + m.sz ≤
        lim := by
    intro hof
    by_cases hidle : s.workingSz left trader sym m.side = 0
    · have hcheck := hlim
      simp only [State.checkLimit, hof.sym, hof.owner, hcusip, Bool.false_eq_true, if_false,
        getPos_eq_net h.oneSided, Option.map_some, Option.some.injEq] at hcheck
      have hbound := overLimit_eq_false hcheck (by rw [hof.sym, h.limit]; exact hnonneg)
      rw [hof.sym, h.limit] at hbound
      rw [hidle, add_zero]
      exact hbound
    · have hbound := hwork hlim hof hidle
      rwa [h.limit] at hbound
  refine ⟨fun t y => ?_, ?_, fun id => ?_, fun side => ?_⟩
  · rw [hsame.pos]
    exact h.oneSided t y
  · rw [hsame.posLimit]
    exact h.limit
  · by_cases hid : id = s.currId
    · subst hid
      rw [Function.update_self]
      exact hsz.le
    · rw [Function.update_of_ne hid]
      exact h.leftNonneg id
  · have hadd : s'.workingSz (Function.update left s.currId m.sz) trader sym side ≤
        s.workingSz left trader sym side + if m.Of trader sym side then m.sz else 0 :=
      hacc.workingSz_le hoid hsz.le h.leftNonneg side
    rw [hnet]
    by_cases hm : m.Of trader sym side
    · have hside : m.side = side := hm.side
      subst hside
      have hroom := hfits hm
      rw [if_pos hm] at hadd
      linarith
    · have hroom := h.room side
      rw [if_neg hm] at hadd
      linarith

/-- A position moves towards the limit of a side only by a fill of that side, and by no more
    than the fill. -/
theorem fill_net_le {f : Fill} {ord : Order} (hone : s.AllOneSided)
    (hstep : step c s (.fill f) = some (s', o)) (hord : s.orders.lookup f.id = some ord)
    (hof : ord.Of f.owner f.sym f.side) (hsz : 0 < f.sz) (trader sym : ℕ) (side : Side) :
    ((side.sign * s'.net trader sym : ℤ) : ℚ) ≤ (side.sign * s.net trader sym : ℤ) ∨
      ord.Of trader sym side ∧ ((side.sign * s'.net trader sym : ℤ) : ℚ) ≤
        (side.sign * s.net trader sym : ℤ) + f.sz := by
  have hcontrib := (step_net hone hstep).2 trader sym
  have hwhole := toInt_le hsz.le
  have hwhole0 : (0 : ℚ) ≤ toInt f.sz := by exact_mod_cast toInt_nonneg hsz.le
  simp only [contribution, State.inMap, hord, Option.isSome_some, and_true] at hcontrib
  by_cases hthis : f.owner = trader ∧ f.sym = sym
  · rw [if_pos hthis] at hcontrib
    by_cases hside : f.side = side
    · right
      refine ⟨⟨hof.owner.trans hthis.1, hof.sym.trans hthis.2, hof.side.trans hside⟩, ?_⟩
      rw [hcontrib, hside]
      cases side with
      | buy =>
          push_cast [Side.sign_buy]
          linarith
      | sel =>
          push_cast [Side.sign_sel]
          linarith
    · left
      rw [hcontrib, Side.sign_of_ne hside]
      cases side with
      | buy =>
          push_cast [Side.sign_buy]
          linarith
      | sel =>
          push_cast [Side.sign_sel]
          linarith
  · rw [if_neg hthis, Int.add_zero] at hcontrib
    left
    rw [hcontrib]

/-- **A fill within its order's size keeps the room.**  The position moves by no more than
    what leaves the order. -/
theorem Room.fill {lim : ℤ} (h : Room trader sym lim s left)
    {f : Fill} {ord : Order} (hstep : step c s (.fill f) = some (s', o))
    (hord : s.orders.lookup f.id = some ord) (hsz : 0 < f.sz)
    (horders : s'.orders = s.orders.insert f.id (ord.afterFill f))
    (hfill : FillsWithinSize (s, left) (.fill f)) (hlimit : s'.posLimit sym = s.posLimit sym) :
    Room trader sym lim s' (Function.update left f.id (left f.id - f.sz)) := by
  obtain ⟨hof, hleft⟩ := hfill ord hord
  simp only at hleft
  refine ⟨(step_net h.oneSided hstep).1, hlimit.trans h.limit, fun id => ?_, fun side => ?_⟩
  · by_cases hid : id = f.id
    · subst hid
      rw [Function.update_self]
      linarith
    · rw [Function.update_of_ne hid]
      exact h.leftNonneg id
  · have hroom := h.room side
    have hworking : s'.workingSz (Function.update left f.id (left f.id - f.sz)) trader sym side =
        s.workingSz left trader sym side + if ord.Of trader sym side then
          Function.update left f.id (left f.id - f.sz) f.id - left f.id else 0 :=
      workingSz_rewrite hord horders (ord.continues_afterFill f).same
        fun k hk => Function.update_of_ne hk _ _
    rw [Function.update_self, sub_sub_cancel_left] at hworking
    rcases fill_net_le h.oneSided hstep hord hof hsz trader sym side with hle | ⟨hside, hle⟩
    · -- the position moves away, and no more is working
      split_ifs at hworking
      · linarith
      · linarith
    · rw [if_pos hside] at hworking
      linarith

/-- One message keeps the room under the three conditions. -/
theorem Room.step {lim : ℤ} (h : Room trader sym lim s left)
    (hcusip : c.isCusipAsset sym = false) (hnonneg : 0 ≤ lim) {e : Event}
    (hfill : FillsWithinSize (s, left) e) (hstay : LimitStays trader sym (s, left) e)
    (hwork : WorkingWithin c trader sym (s, left) e) (hstep : step c s e = some (s', o)) :
    Room trader sym lim s' (leftAfter c s e left) := by
  obtain ⟨hsides, hnet⟩ := step_net h.oneSided hstep
  by_cases he : e.NotOrder ∧ e.LeavesPositions
  · have hsame := step_samePositions he.2 hstep
    have hleft : leftAfter c s e left = left := by
      cases e with
      | order m => cases he.1
      | fill f => cases he.2
      | _ => rfl
    rw [hleft]
    refine h.quiet (step_quiet he.1 hstep).continues hsides (by rw [hsame.posLimit]) ?_
    rw [State.net, State.net, hsame.pos]
  cases e with
  | order m =>
      have hsame := orderHandler_samePositions hstep
      simp only [leftAfter]
      obtain ⟨hlim, rfl, -⟩ | ⟨hlim, n, o₂, o₃, hacc⟩ := orderHandler_cases hstep
      · rw [if_neg (by rw [hlim]; decide)]
        exact h
      · rw [if_pos hlim, assignId_of_neg hfill]
        exact h.accept hcusip hnonneg hfill (orderHandler_sz_pos hstep) hlim hacc hsame hwork
  | fill f =>
      simp only [leftAfter]
      obtain ⟨hsz, ⟨hnone, rfl, -⟩ | ⟨ord, p, hord, -, rfl, -⟩⟩ := fillHandler_cases hstep
      · rw [hnone]
        exact h
      · rw [hord]
        exact h.fill hstep hord hsz rfl hfill rfl
  | positionResponse t y position =>
      have hcontrib : contribution trader sym s.inMap (.positionResponse t y position) = 0 :=
        if_neg hstay
      refine h.quiet (step_quiet (e := .positionResponse t y position) trivial hstep).continues
        hsides ?_ (by rw [hnet, hcontrib, Int.add_zero])
      simp only [Som.step, State.positionResponseHandler] at hstep
      by_cases hzero : position = 0
      · rw [if_pos hzero] at hstep
        cases hstep
        rfl
      · rw [if_neg hzero] at hstep
        obtain ⟨p, -, heq⟩ := Option.map_eq_some_iff.mp hstep
        cases heq
        rfl
  | readLimits sender posLimit sizeLimit =>
      have hq := step_quiet (e := .readLimits sender posLimit sizeLimit) trivial hstep
      have hcontrib := hnet trader sym
      cases hstep
      exact h.quiet hq.continues hsides hstay (hcontrib.trans (Int.add_zero _))
  | _ => exact absurd ⟨trivial, trivial⟩ he

/-! ### Runs -/

/-- A condition on every step of a run from `s₀`, where no order has anything left. -/
abbrev Along (c : Cfg) (P : State × (UInt32 → ℚ) → Event → Prop) (s₀ : State)
    (es : List Event) : Prop :=
  AllSteps (stepLeft c) P (s₀, fun _ => 0) es

end KasparHft.Som
