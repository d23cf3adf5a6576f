import KasparHft.Som

/-!
# What one message does to the order manager

One inversion lemma for `order_handler` and one frame lemma for every other handler.
The results on order ids, positions and the life of an order start from these and never
unfold a handler again.
-/

namespace KasparHft.Som

open AssocMap Pos

variable {c : Cfg} {s s' : State} {o : List Sent}

/-! ### Orders as requests -/

/-- Two orders made by one request: only ids, flags and what is left may differ. -/
structure Order.SameRequest (m n : Order) : Prop where
  venue : m.venue = n.venue
  sym : m.sym = n.sym
  sz : m.sz = n.sz
  px : m.px = n.px
  side : m.side = n.side
  owner : m.owner = n.owner
  sender : m.sender = n.sender

theorem Order.SameRequest.refl (m : Order) : m.SameRequest m :=
  ⟨rfl, rfl, rfl, rfl, rfl, rfl, rfl⟩

theorem Order.SameRequest.trans {m n r : Order} (h₁ : m.SameRequest n)
    (h₂ : n.SameRequest r) : m.SameRequest r :=
  ⟨h₁.venue.trans h₂.venue, h₁.sym.trans h₂.sym, h₁.sz.trans h₂.sz, h₁.px.trans h₂.px,
    h₁.side.trans h₂.side, h₁.owner.trans h₂.owner, h₁.sender.trans h₂.sender⟩

/-- Not marked filled, cancelled or rejected. -/
def Order.Working (m : Order) : Prop :=
  m.filled = false ∧ m.canced = false ∧ m.rejed = false

instance (m : Order) : Decidable m.Working :=
  inferInstanceAs (Decidable (_ ∧ _))

/-- `n` is the stored order `m` at a later time: the same request, and a mark stays. -/
structure Order.Continues (m n : Order) : Prop where
  same : m.SameRequest n
  working : n.Working → m.Working

theorem Order.Continues.refl (m : Order) : m.Continues m :=
  ⟨.refl m, id⟩

theorem Order.Continues.trans {m n r : Order} (h₁ : m.Continues n) (h₂ : n.Continues r) :
    m.Continues r :=
  ⟨h₁.same.trans h₂.same, fun h => h₁.working (h₂.working h)⟩

theorem Order.continues_afterFill (m : Order) (f : Fill) : m.Continues (m.afterFill f) where
  same := ⟨rfl, rfl, rfl, rfl, rfl, rfl, rfl⟩
  working h := by
    obtain ⟨hfilled, hcanced, hrejed⟩ := h
    exact ⟨(Bool.or_eq_false_iff.mp hfilled).1, hcanced, hrejed⟩

/-! ### Messages -/

/-- The messages of a cancellation: a cancel on its way to the venue, or its refusal. -/
def Msg.IsCancel : Msg → Prop
  | .cancReject .. => True
  | .cancel .. => True
  | .bookData d => d.isCancel = true
  | _ => False

/-- Neither an ack to a client nor a forwarded order. -/
def Msg.Passive : Msg → Prop
  | .ack _ => False
  | .order _ => False
  | .bookData d => d.isCancel = true
  | _ => True

theorem Msg.IsCancel.passive {m : Msg} (h : m.IsCancel) : m.Passive := by
  cases m <;> simp_all [Msg.IsCancel, Msg.Passive]

/-- Every message of `o` belongs to a cancellation. -/
def CancelsOnly (o : List Sent) : Prop :=
  ∀ x ∈ o, x.msg.IsCancel

theorem cancelsOnly_nil : CancelsOnly [] := fun _ hx => by cases hx

theorem cancelsOnly_append {o₁ o₂ : List Sent} (h₁ : CancelsOnly o₁) (h₂ : CancelsOnly o₂) :
    CancelsOnly (o₁ ++ o₂) := by
  intro x hx
  rcases List.mem_append.mp hx with hx | hx
  · exact h₁ x hx
  · exact h₂ x hx

theorem cancelsOnly_singleton {x : Sent} (h : x.msg.IsCancel) : CancelsOnly [x] := by
  intro y hy
  rw [List.mem_singleton.mp hy]
  exact h

/-- What a handler other than `order_handler` can do: it hands out no id, stores no new
    order, and sends neither acks nor orders. -/
structure Quiet (s s' : State) (o : List Sent) : Prop where
  currId : s'.currId = s.currId
  continues : ∀ id n, s'.orders.lookup id = some n →
    ∃ m, s.orders.lookup id = some m ∧ m.Continues n
  passive : ∀ x ∈ o, x.msg.Passive

/-- A handler that leaves the counter and the orders alone. -/
theorem Quiet.ofFrame (hid : s'.currId = s.currId) (hords : s'.orders = s.orders)
    (ho : ∀ x ∈ o, x.msg.Passive) : Quiet s s' o where
  currId := hid
  continues id n h := ⟨n, by rw [← hords]; exact h, .refl n⟩
  passive := ho

theorem CancelsOnly.passive (h : CancelsOnly o) : ∀ x ∈ o, x.msg.Passive :=
  fun x hx => (h x hx).passive

/-- Rewriting one stored order as a later version of itself. -/
theorem continues_insert {id : UInt32} {m n : Order} (hm : s.orders.lookup id = some m)
    (hn : m.Continues n) : ∀ id' n', (s.orders.insert id n).lookup id' = some n' →
      ∃ m', s.orders.lookup id' = some m' ∧ m'.Continues n' := by
  intro id' n' h
  by_cases hid : id' = id
  · subst hid
    rw [AList.lookup_insert] at h
    exact ⟨m, hm, Option.some.inj h ▸ hn⟩
  · rw [AList.lookup_insert_ne hid] at h
    exact ⟨n', h, .refl n'⟩

theorem continues_erase {id : UInt32} : ∀ id' n', (s.orders.erase id).lookup id' = some n' →
    ∃ m', s.orders.lookup id' = some m' ∧ m'.Continues n' := by
  intro id' n' h
  by_cases hid : id' = id
  · subst hid
    rw [AList.lookup_erase] at h
    cases h
  · rw [AList.lookup_erase_ne hid] at h
    exact ⟨n', h, .refl n'⟩

/-! ### Cancellations -/

theorem cancelOrder_cancelsOnly {id : UInt32} {ord : Order} {ts : ℕ}
    (h : s.cancelOrder c id ord ts = some o) : CancelsOnly o := by
  unfold State.cancelOrder at h
  split_ifs at h
  · cases h
    exact cancelsOnly_singleton trivial
  · cases h
    exact cancelsOnly_singleton trivial
  · cases h
    exact cancelsOnly_singleton trivial
  · obtain ⟨book, -, rfl⟩ := Option.map_eq_some_iff.mp h
    exact cancelsOnly_singleton rfl
  · split at h
    · cases h
      exact cancelsOnly_nil
    · cases h
      exact cancelsOnly_singleton trivial

theorem cancelAllOrders_cancelsOnly (h : s.cancelAllOrders c = some o) : CancelsOnly o := by
  unfold State.cancelAllOrders at h
  generalize s.orders.entries = entries at h
  induction entries generalizing o with
  | nil =>
      simp only [State.cancelEach, Option.some.injEq] at h
      subst h
      exact cancelsOnly_nil
  | cons entry rest ih =>
      obtain ⟨k, order⟩ := entry
      simp only [State.cancelEach] at h
      split_ifs at h
      · exact ih h
      · split at h
        · cases h
        · rename_i o₁ hfirst
          obtain ⟨o₂, hrest, rfl⟩ := Option.map_eq_some_iff.mp h
          exact cancelsOnly_append (cancelOrder_cancelsOnly hfirst) (ih hrest)

/-- `internal_reject` marks nothing, since unacked cancels are allowed; the order it gives
    back is the stored one. -/
theorem internalReject_spec (c : Cfg) (s : State) (id : UInt32) :
    ∃ o ord, s.internalReject c id = (s, o, ord) ∧ CancelsOnly o := by
  unfold State.internalReject
  split
  · exact ⟨_, _, rfl, cancelsOnly_nil⟩
  · split_ifs with h₁ h₂ h₃ h₄
    · exact ⟨_, _, rfl, cancelsOnly_singleton trivial⟩
    · exact ⟨_, _, rfl, cancelsOnly_singleton trivial⟩
    · exact ⟨_, _, rfl, cancelsOnly_singleton trivial⟩
    · simp [allowUnackedCancels] at h₄
    · exact ⟨_, _, rfl, cancelsOnly_nil⟩

theorem cancReplace_spec {m n : Order} (h : s.cancReplace c m = some (s', n, o)) :
    s' = s ∧ (n = m ∨ n = { m with oidToCancel := -1 }) ∧ CancelsOnly o := by
  unfold State.cancReplace at h
  by_cases hneg : m.oidToCancel < 0
  · rw [if_pos hneg] at h
    cases h
    exact ⟨rfl, .inl rfl, cancelsOnly_nil⟩
  · rw [if_neg hneg] at h
    obtain ⟨o₁, ord, hir, hcancels⟩ := internalReject_spec c s m.oidToCancel.toUInt32
    rw [hir] at h
    cases ord with
    | none =>
        cases h
        exact ⟨rfl, .inr rfl, hcancels⟩
    | some ord =>
        by_cases hsim : c.simMode = true
        · simp only [hsim, if_true] at h
          obtain ⟨o₂, hcancel, heq⟩ := Option.map_eq_some_iff.mp h
          cases heq
          exact ⟨rfl, .inl rfl, cancelsOnly_append hcancels (cancelOrder_cancelsOnly hcancel)⟩
        · simp only [hsim] at h
          cases h
          exact ⟨rfl, .inl rfl, hcancels⟩

/-! ### The order handler -/

/-- What `placeOrder` can do: reject while stopped, place the order on a book, find no
    manager, or send it to the venue's manager and store what was sent. -/
theorem placeOrder_cases {m : Order} (h : s.placeOrder c m = some (s', o)) :
    (s.stopped = true ∧ s' = s ∧ o = [⟨m.sender, .reject m.oid.toUInt32 rejectOverlimit⟩]) ∨
    (s.stopped = false ∧ c.simMode = true ∧ s' = s ∧
      ∃ book, o = [⟨book, .bookData (addData m)⟩]) ∨
    (s.stopped = false ∧ c.simMode = false ∧ s.orderManagers m.venue = none ∧ s' = s ∧
      o = []) ∨
    (s.stopped = false ∧ c.simMode = false ∧ ∃ om, s.orderManagers m.venue = some om ∧
      s' = { s with orders := s.orders.insert m.oid.toUInt32 m.forwarded } ∧
      o = [⟨om, .order m.forwarded⟩]) := by
  simp only [State.placeOrder] at h
  split_ifs at h with hstopped hsim
  · cases h
    exact .inl ⟨hstopped, rfl, rfl⟩
  · obtain ⟨book, -, heq⟩ := Option.map_eq_some_iff.mp h
    cases heq
    exact .inr (.inl ⟨by simpa using hstopped, hsim, rfl, book, rfl⟩)
  · split at h
    · rename_i hom
      cases h
      exact .inr (.inr (.inl ⟨by simpa using hstopped, by simpa using hsim, hom, rfl, rfl⟩))
    · rename_i om hom
      cases h
      exact .inr (.inr (.inr ⟨by simpa using hstopped, by simpa using hsim, om, hom, rfl, rfl⟩))

/-- The order as `assignId` leaves it. -/
theorem assignId_of_neg {m : Order} (h : m.oid < 0) :
    s.assignId m =
      ({ s with
          currId := s.currId + 1
          orders := s.orders.insert s.currId { m with oid := s.currId.toInt32 } },
        { m with oid := s.currId.toInt32 }) := by
  simp only [State.assignId, if_pos h]
  rfl

theorem assignId_of_nonneg {m : Order} (h : ¬ m.oid < 0) : s.assignId m = (s, m) := by
  simp only [State.assignId, if_neg h]

theorem assignId_sameRequest (s : State) (m : Order) :
    m.SameRequest (s.assignId m).2 ∧ ((s.assignId m).2.Working ↔ m.Working) := by
  by_cases h : m.oid < 0
  · rw [assignId_of_neg h]
    exact ⟨⟨rfl, rfl, rfl, rfl, rfl, rfl, rfl⟩, Iff.rfl⟩
  · rw [assignId_of_nonneg h]
    exact ⟨.refl m, Iff.rfl⟩

/-- An accepted order: acked under its id after the cancel-replace part, then placed. -/
structure Accepted (c : Cfg) (s : State) (m : Order) (s' : State) (o : List Sent)
    (n : Order) (o₂ o₃ : List Sent) : Prop where
  request : n = (s.assignId m).2 ∨ n = { (s.assignId m).2 with oidToCancel := -1 }
  placed : (s.assignId m).1.placeOrder c n = some (s', o₃)
  cancels : CancelsOnly o₂
  sent : o = ⟨m.sender, .ack n.oid.toUInt32⟩ :: (o₂ ++ o₃)

/-- **Inversion of `order_handler`.**  The order is over a limit, and acked and rejected
    under the next id, which stays the next id; or it is accepted. -/
theorem orderHandler_cases {m : Order} (h : s.orderHandler c m = some (s', o)) :
    (s.checkLimit c m = some true ∧ s' = s ∧
      o = [⟨m.sender, .ack s.currId⟩, ⟨m.sender, .reject s.currId rejectOverlimit⟩]) ∨
    (s.checkLimit c m = some false ∧ ∃ n o₂ o₃, Accepted c s m s' o n o₂ o₃) := by
  unfold State.orderHandler at h
  split_ifs at h
  split at h
  · cases h
  · rename_i hlim
    cases h
    exact .inl ⟨hlim, rfl, rfl⟩
  · rename_i hlim
    refine .inr ⟨hlim, ?_⟩
    unfold State.acceptOrder at h
    simp only at h
    split at h
    · cases h
    · rename_i s₂ n o₂ hrepl
      obtain ⟨⟨s₃, o₃⟩, hplace, heq⟩ := Option.map_eq_some_iff.mp h
      cases heq
      obtain ⟨rfl, hn, hcancels⟩ := cancReplace_spec hrepl
      have hoid : n.oid = (s.assignId m).2.oid := by
        rcases hn with rfl | rfl <;> rfl
      exact ⟨n, o₂, o₃, hn, hplace, hcancels, by rw [hoid]⟩

/-! ### The other handlers -/

theorem cancHandler_quiet {id : UInt32} {ts : ℕ} (h : s.cancHandler c id ts = some (s', o)) :
    Quiet s s' o := by
  unfold State.cancHandler at h
  obtain ⟨o₁, ord, hir, hcancels⟩ := internalReject_spec c s id
  rw [hir] at h
  cases ord with
  | none =>
      cases h
      exact .ofFrame rfl rfl hcancels.passive
  | some ord =>
      obtain ⟨o₂, hcancel, heq⟩ := Option.map_eq_some_iff.mp h
      cases heq
      exact .ofFrame rfl rfl
        (cancelsOnly_append hcancels (cancelOrder_cancelsOnly hcancel)).passive

theorem cancAckHandler_quiet {id : UInt32} {fillsz sz : ℤ}
    (h : s.cancAckHandler c id fillsz sz = some (s', o)) : Quiet s s' o := by
  unfold State.cancAckHandler at h
  split at h
  · cases h
    exact .ofFrame rfl rfl (fun _ hx => by cases hx)
  · rename_i order hord
    have hpassive : ∀ x ∈ (if order.sender = c.self then [] else
        [(⟨order.sender, .cancAck id fillsz sz⟩ : Sent)]), x.msg.Passive := by
      intro x hx
      split_ifs at hx
      · cases hx
      · rw [List.mem_singleton.mp hx]
        trivial
    simp only at h
    split_ifs at h
    all_goals
      cases h
    · exact ⟨rfl, continues_erase, fun _ hx => by cases hx⟩
    · exact ⟨rfl, continues_erase, by simpa [*] using hpassive⟩
    · exact .ofFrame rfl rfl (fun _ hx => by cases hx)
    · exact .ofFrame rfl rfl (by simpa [*] using hpassive)

theorem cancRejHandler_quiet {id : UInt32} {reason ordStatus : ℤ}
    (h : s.cancRejHandler c id reason ordStatus = some (s', o)) : Quiet s s' o := by
  unfold State.cancRejHandler at h
  split at h
  · cases h
    exact .ofFrame rfl rfl (fun _ hx => by cases hx)
  · split_ifs at h
    all_goals
      cases h
      refine .ofFrame rfl rfl (CancelsOnly.passive (cancelsOnly_singleton ?_))
      trivial

theorem ackHandler_quiet {id : UInt32} (h : s.ackHandler c id = some (s', o)) :
    Quiet s s' o := by
  unfold State.ackHandler at h
  split at h
  · cases h
  · rename_i order hord
    have hcont := continues_insert hord (n := { order with acked := true })
      ⟨⟨rfl, rfl, rfl, rfl, rfl, rfl, rfl⟩, fun h => h⟩
    simp only at h
    split_ifs at h
    · cases h
      exact ⟨rfl, hcont, fun _ hx => by cases hx⟩
    · obtain ⟨o₁, hcancel, heq⟩ := Option.map_eq_some_iff.mp h
      cases heq
      exact ⟨rfl, hcont, (cancelOrder_cancelsOnly hcancel).passive⟩
    · cases h
      exact ⟨rfl, hcont, fun _ hx => by cases hx⟩

theorem rejHandler_quiet {id : UInt32} {reason : ℤ}
    (h : s.rejHandler id reason = some (s', o)) : Quiet s s' o := by
  unfold State.rejHandler at h
  split at h
  · cases h
    exact .ofFrame rfl rfl (fun _ hx => by cases hx)
  · cases h
    refine ⟨rfl, continues_erase, ?_⟩
    intro x hx
    rw [List.mem_singleton.mp hx]
    trivial

/-- What `fill_handler` can do: drop the fill, or book it on the owner's position. -/
theorem fillHandler_cases {f : Fill} (h : s.fillHandler c f = some (s', o)) :
    0 < f.sz ∧
    ((s.orders.lookup f.id = none ∧ s' = s ∧ o = []) ∨
    (∃ ord p, s.orders.lookup f.id = some ord ∧
      (s.pos f.owner f.sym).addToPosition ⟨f.side, f.px, toInt f.sz⟩ = some p ∧
      s' = ({ s with orders := s.orders.insert f.id (ord.afterFill f) }).setPos f.owner f.sym p ∧
      ∀ x ∈ o, x.msg = .fill { f with venue := ord.venue })) := by
  unfold State.fillHandler at h
  split_ifs at h with hbad
  have hsz : 0 < f.sz := by
    by_contra hle
    exact hbad (.inr (.inl (not_lt.mp hle)))
  refine ⟨hsz, ?_⟩
  split at h
  · rename_i hnone
    cases h
    exact .inl ⟨hnone, rfl, rfl⟩
  · rename_i ord hord
    split_ifs at h
    obtain ⟨p, hp, heq⟩ := Option.map_eq_some_iff.mp h
    cases heq
    refine .inr ⟨ord, p, hord, hp, rfl, ?_⟩
    intro x hx
    rcases List.mem_cons.mp hx with rfl | hx
    · rfl
    · obtain ⟨sub, -, rfl⟩ := List.mem_map.mp hx
      rfl

theorem fillHandler_quiet {f : Fill} (h : s.fillHandler c f = some (s', o)) :
    Quiet s s' o := by
  obtain ⟨-, ⟨-, rfl, rfl⟩ | ⟨ord, p, hord, -, rfl, ho⟩⟩ := fillHandler_cases h
  · exact .ofFrame rfl rfl (fun _ hx => by cases hx)
  · refine ⟨rfl, continues_insert hord (ord.continues_afterFill f), ?_⟩
    intro x hx
    rw [ho x hx]
    trivial

theorem positionResponseHandler_quiet {trader sym : ℕ} {position : ℤ}
    (h : s.positionResponseHandler trader sym position = some (s', o)) : Quiet s s' o := by
  unfold State.positionResponseHandler at h
  by_cases hzero : position = 0
  · rw [if_pos hzero] at h
    cases h
    exact .ofFrame rfl rfl (fun _ hx => by cases hx)
  · rw [if_neg hzero] at h
    obtain ⟨p, -, heq⟩ := Option.map_eq_some_iff.mp h
    cases heq
    exact .ofFrame rfl rfl (fun _ hx => by cases hx)

theorem exitHandler_quiet {venu : ℕ} (h : s.exitHandler c venu = some (s', o)) :
    Quiet s s' o := by
  unfold State.exitHandler at h
  split_ifs at h
  split at h
  · rename_i o₁ om hcancel hom
    cases h
    refine .ofFrame rfl rfl ?_
    intro x hx
    rcases List.mem_append.mp hx with hx | hx
    · exact (cancelAllOrders_cancelsOnly hcancel).passive x hx
    · rw [List.mem_singleton.mp hx]
      trivial
  · cases h

/-- A message that is not a client's order. -/
def Event.NotOrder : Event → Prop
  | .order _ => False
  | _ => True

/-- **Every message but an order is quiet.** -/
theorem step_quiet {e : Event} (he : e.NotOrder) (h : step c s e = some (s', o)) :
    Quiet s s' o := by
  have hpage : ∀ sender, ∀ x ∈ [(⟨sender, .page⟩ : Sent)], x.msg.Passive := by
    intro sender x hx
    rw [List.mem_singleton.mp hx]
    trivial
  cases e with
  | order m => cases he
  | cancel id ts => exact cancHandler_quiet h
  | cancAck id fillsz sz => exact cancAckHandler_quiet h
  | cancReject id reason ordStatus => exact cancRejHandler_quiet h
  | ack id => exact ackHandler_quiet h
  | reject id reason => exact rejHandler_quiet h
  | fill f => exact fillHandler_quiet h
  | fillSub sender =>
      cases h
      exact .ofFrame rfl rfl (fun _ hx => by cases hx)
  | stop =>
      obtain ⟨o₁, hcancel, heq⟩ := Option.map_eq_some_iff.mp h
      cases heq
      exact .ofFrame rfl rfl (cancelAllOrders_cancelsOnly hcancel).passive
  | start =>
      cases h
      exact .ofFrame rfl rfl (fun _ hx => by cases hx)
  | exitPos venu => exact exitHandler_quiet h
  | setExchManager venue manager =>
      cases h
      exact .ofFrame rfl rfl (fun _ hx => by cases hx)
  | cancAll sender =>
      obtain ⟨o₁, hcancel, heq⟩ := Option.map_eq_some_iff.mp h
      cases heq
      refine .ofFrame rfl rfl ?_
      intro x hx
      rcases List.mem_append.mp hx with hx | hx
      · exact (cancelAllOrders_cancelsOnly hcancel).passive x hx
      · exact hpage sender x hx
  | readLimits sender posLimit sizeLimit =>
      cases h
      exact .ofFrame rfl rfl (hpage sender)
  | positionResponse trader sym position => exact positionResponseHandler_quiet h

end KasparHft.Som
