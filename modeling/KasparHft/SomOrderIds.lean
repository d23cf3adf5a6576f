import KasparHft.SomSteps

/-!
# Order ids

An order id reaches its client in an `Ack`.  The next id is handed out twice when an order
over a limit is followed by another order: the over-limit branch of `order_handler` acks
`curr_id` without advancing it.  The ids of a run are distinct exactly when no order comes
after one that was rejected for a limit.
-/

namespace KasparHft.Som

open AssocMap Machine

variable {c : Cfg} {s s' : State} {o out : List Sent} {es : List Event}

/-! ### Acks -/

/-- The id a message acks. -/
def Sent.ackId (x : Sent) : Option UInt32 :=
  match x.msg with
  | .ack id => some id
  | _ => none

/-- The ids acked by a list of messages, in order. -/
def ackIds (o : List Sent) : List UInt32 :=
  o.filterMap Sent.ackId

@[simp] theorem ackIds_append (o₁ o₂ : List Sent) : ackIds (o₁ ++ o₂) = ackIds o₁ ++ ackIds o₂ :=
  List.filterMap_append

theorem ackIds_of_passive (h : ∀ x ∈ o, x.msg.Passive) : ackIds o = [] := by
  refine List.filterMap_eq_nil_iff.mpr ?_
  intro x hx
  have hpassive := h x hx
  unfold Sent.ackId
  split
  · rename_i id hid
    rw [hid] at hpassive
    cases hpassive
  · rfl

theorem mem_ackIds_of_mem {client : ℕ} {id : UInt32} (h : ⟨client, .ack id⟩ ∈ o) :
    id ∈ ackIds o :=
  List.mem_filterMap.mpr ⟨_, h, rfl⟩

/-- With distinct ids, two acks of one id are one message. -/
theorem ack_unique {a b : ℕ} {id : UInt32} (hnodup : (ackIds o).Nodup)
    (ha : ⟨a, .ack id⟩ ∈ o) (hb : ⟨b, .ack id⟩ ∈ o) : a = b := by
  induction o with
  | nil => cases ha
  | cons x rest ih =>
      rw [show x :: rest = [x] ++ rest from rfl, ackIds_append] at hnodup
      obtain ⟨-, hrest, hdisj⟩ := List.nodup_append.mp hnodup
      -- an id acked by the head is not acked again
      have hhead : ∀ p q : ℕ, x = ⟨p, .ack id⟩ → ⟨q, .ack id⟩ ∈ rest → False := by
        intro p q hx hq
        subst hx
        exact hdisj id (by simp [ackIds, Sent.ackId]) id (mem_ackIds_of_mem hq) rfl
      rcases List.mem_cons.mp ha with ha | ha
      · rcases List.mem_cons.mp hb with hb | hb
        · have hab := ha.trans hb.symm
          cases hab
          rfl
        · exact absurd hb fun hb => hhead a b ha.symm hb
      · rcases List.mem_cons.mp hb with hb | hb
        · exact absurd ha fun ha => hhead b a hb.symm ha
        · exact ih hrest ha hb

/-! ### What an order acks -/

theorem placeOrder_ackIds {m : Order} (h : s.placeOrder c m = some (s', o)) :
    ackIds o = [] ∧ s'.currId = s.currId := by
  obtain ⟨-, rfl, rfl⟩ | ⟨-, -, rfl, book, rfl⟩ | ⟨-, -, -, rfl, rfl⟩ |
    ⟨-, -, om, -, rfl, rfl⟩ := placeOrder_cases h
  · exact ⟨rfl, rfl⟩
  · exact ⟨rfl, rfl⟩
  · exact ⟨rfl, rfl⟩
  · exact ⟨rfl, rfl⟩

theorem Accepted.ackIds_eq {m n : Order} {o₂ o₃ : List Sent} (h : Accepted c s m s' o n o₂ o₃) :
    ackIds o = [n.oid.toUInt32] ∧ s'.currId = (s.assignId m).1.currId := by
  obtain ⟨hplace, hcurr⟩ := placeOrder_ackIds h.placed
  refine ⟨?_, hcurr⟩
  rw [h.sent]
  have hcancels := ackIds_of_passive h.cancels.passive
  simp only [ackIds, List.filterMap_cons, List.filterMap_append] at hplace hcancels ⊢
  simp [Sent.ackId, hplace, hcancels]

/-- An order without an id is acked under the next one; the counter then moves on, unless
    the order is over a limit. -/
theorem order_ackIds {m : Order} (hoid : m.oid < 0) (h : step c s (.order m) = some (s', o)) :
    ackIds o = [s.currId] ∧
      (s.checkLimit c m = some true ∨
        (s.checkLimit c m = some false ∧ s'.currId = s.currId + 1)) := by
  obtain ⟨hlim, -, rfl⟩ | ⟨hlim, n, o₂, o₃, hacc⟩ := orderHandler_cases h
  · exact ⟨rfl, .inl hlim⟩
  · obtain ⟨hacks, hcurr⟩ := hacc.ackIds_eq
    have hn : n.oid.toUInt32 = s.currId := by
      rcases hacc.request with rfl | rfl <;> rw [assignId_of_neg hoid] <;> rfl
    refine ⟨by rw [hacks, hn], .inr ⟨hlim, ?_⟩⟩
    rw [hcurr, assignId_of_neg hoid]

/-! ### Stored orders have been acked -/

/-- Every stored order was acked to the client that sent it, under its key. -/
def StoredAcked (s : State) (out : List Sent) : Prop :=
  ∀ id m, s.orders.lookup id = some m → ⟨m.sender, .ack id⟩ ∈ out

theorem placeOrder_stored {m : Order} (h : s.placeOrder c m = some (s', o)) :
    ∀ id n, s'.orders.lookup id = some n →
      s.orders.lookup id = some n ∨ (id = m.oid.toUInt32 ∧ m.Continues n) := by
  intro id n hn
  obtain ⟨-, rfl, -⟩ | ⟨-, -, rfl, -⟩ | ⟨-, -, -, rfl, -⟩ | ⟨-, -, om, -, rfl, -⟩ :=
    placeOrder_cases h
  · exact .inl hn
  · exact .inl hn
  · exact .inl hn
  · by_cases hid : id = m.oid.toUInt32
    · subst hid
      rw [AList.lookup_insert] at hn
      cases hn
      exact .inr ⟨rfl, ⟨⟨rfl, rfl, rfl, rfl, rfl, rfl, rfl⟩, fun h => h⟩⟩
    · rw [AList.lookup_insert_ne hid] at hn
      exact .inl hn

/-- What an accepted order leaves in the map: the old orders, and itself. -/
theorem Accepted.stored {m n : Order} {o₂ o₃ : List Sent} (h : Accepted c s m s' o n o₂ o₃) :
    ∀ id r, s'.orders.lookup id = some r →
      s.orders.lookup id = some r ∨ (id = n.oid.toUInt32 ∧ m.Continues r) := by
  obtain ⟨hsame, hworking⟩ := assignId_sameRequest s m
  have hmn : m.Continues n := by
    rcases h.request with rfl | rfl
    · exact ⟨hsame, hworking.mp⟩
    · exact ⟨⟨hsame.venue, hsame.sym, hsame.sz, hsame.px, hsame.side, hsame.owner, hsame.sender⟩,
        hworking.mp⟩
  intro id r hr
  rcases placeOrder_stored h.placed id r hr with hold | ⟨hid, hnr⟩
  · by_cases hoid : m.oid < 0
    · rw [assignId_of_neg hoid] at hold
      have hn : n.oid.toUInt32 = s.currId := by
        rcases h.request with rfl | rfl <;> rw [assignId_of_neg hoid] <;> rfl
      by_cases hid : id = s.currId
      · subst hid
        rw [AList.lookup_insert] at hold
        cases hold
        exact .inr ⟨hn.symm, ⟨⟨rfl, rfl, rfl, rfl, rfl, rfl, rfl⟩, fun h => h⟩⟩
      · rw [AList.lookup_insert_ne hid] at hold
        exact .inl hold
    · rw [assignId_of_nonneg hoid] at hold
      exact .inl hold
  · exact .inr ⟨hid, hmn.trans hnr⟩

theorem run_storedAcked {venue : ℕ} {posLimit sizeLimit : ℕ → ℤ}
    (hrun : run (step c) (State.new venue posLimit sizeLimit) es = some (s, out)) :
    StoredAcked s out := by
  refine run_invariant (I := fun _ out s => StoredAcked s out) ?_ ?_ hrun
  · intro id m hm
    cases hm
  · intro past os m e m' o hI hstep id r hr
    by_cases he : e.NotOrder
    · obtain ⟨q, hq, hcont⟩ := (step_quiet he hstep).continues id r hr
      rw [← hcont.same.sender]
      exact List.mem_append_left _ (hI id q hq)
    · cases e with
      | order req =>
          obtain ⟨-, rfl, -⟩ | ⟨-, n, o₂, o₃, hacc⟩ := orderHandler_cases hstep
          · exact List.mem_append_left _ (hI id r hr)
          · rcases hacc.stored id r hr with hold | ⟨rfl, hcont⟩
            · exact List.mem_append_left _ (hI id r hold)
            · refine List.mem_append_right _ ?_
              rw [hacc.sent, ← hcont.same.sender]
              exact List.mem_cons_self
      | _ => exact absurd trivial he

/-! ### Runs -/

/-- An order that `order_handler` rejects for a limit. -/
def OverLimitAt (c : Cfg) (s : State) : Event → Prop
  | .order m => s.checkLimit c m = some true
  | _ => False

/-- Along the run from `s`, no order comes after one that was rejected for a limit. -/
def RejectedLast (c : Cfg) : State → List Event → Prop
  | _, [] => True
  | s, e :: es =>
      (OverLimitAt c s e → ∀ e' ∈ es, e'.NotOrder) ∧
        ∀ s' o, step c s e = some (s', o) → RejectedLast c s' es

/-- The acked ids are distinct, and an acked id names an order of the client that received
    it, so a cancel carrying the id reaches no other client's order. -/
structure IdsUnique (s : State) (out : List Sent) : Prop where
  nodup : (ackIds out).Nodup
  owner : ∀ client id m, ⟨client, .ack id⟩ ∈ out → s.orders.lookup id = some m →
    m.sender = client

/-- The number of orders among the events. -/
def orderCount : List Event → ℕ
  | [] => 0
  | .order _ :: es => orderCount es + 1
  | _ :: es => orderCount es

theorem orderCount_cons_of_notOrder {e : Event} (he : e.NotOrder) :
    orderCount (e :: es) = orderCount es := by
  cases e with
  | order m => cases he
  | _ => rfl

theorem orderCount_eq_zero (h : ∀ e ∈ es, e.NotOrder) : orderCount es = 0 := by
  induction es with
  | nil => rfl
  | cons e es ih =>
      rw [orderCount_cons_of_notOrder (h e List.mem_cons_self)]
      exact ih fun e' he' => h e' (List.mem_cons_of_mem _ he')

/-- The first order of a run is acked under the next id. -/
theorem currId_mem_ackIds (hoid : ∀ m, .order m ∈ es → m.oid < 0)
    (hrun : run (step c) s es = some (s', out)) (hord : ∃ m, .order m ∈ es) :
    s.currId ∈ ackIds out := by
  induction es generalizing s out with
  | nil =>
      obtain ⟨m, hm⟩ := hord
      cases hm
  | cons e es ih =>
      obtain ⟨s₁, o₁, os, hs, hr, rfl⟩ := run_cons.mp hrun
      rw [ackIds_append]
      by_cases he : e.NotOrder
      · have hq := step_quiet he hs
        refine List.mem_append_right _ ?_
        rw [← hq.currId]
        refine ih (fun m hm => hoid m (List.mem_cons_of_mem _ hm)) hr ?_
        obtain ⟨m, hm⟩ := hord
        rcases List.mem_cons.mp hm with rfl | hm
        · cases he
        · exact ⟨m, hm⟩
      · cases e with
        | order m =>
            obtain ⟨hacks, -⟩ := order_ackIds (hoid m List.mem_cons_self) hs
            rw [hacks]
            exact List.mem_append_left _ (List.mem_singleton_self _)
        | _ => exact absurd trivial he

theorem counting_succ (k : UInt32) (n : ℕ) :
    ((List.range (n + 1)).map fun i => k + UInt32.ofNat i) =
      k :: (List.range n).map fun i => k + 1 + UInt32.ofNat i := by
  rw [List.range_succ_eq_map, List.map_cons, List.map_map]
  refine List.cons_eq_cons.mpr ⟨UInt32.add_zero k, List.map_congr_left ?_⟩
  intro i _
  rw [Function.comp_apply, Nat.succ_eq_add_one, UInt32.ofNat_add, UInt32.add_assoc,
    UInt32.add_comm (UInt32.ofNat i)]
  rfl

/-- While rejections for a limit come last, the acked ids count up from the next one. -/
theorem ackIds_of_rejectedLast (hoid : ∀ m, .order m ∈ es → m.oid < 0)
    (hrun : run (step c) s es = some (s', out)) (hlast : RejectedLast c s es) :
    ackIds out = (List.range (orderCount es)).map fun i => s.currId + UInt32.ofNat i := by
  induction es generalizing s out with
  | nil =>
      simp only [run_nil, Option.some.injEq, Prod.mk.injEq] at hrun
      obtain ⟨-, rfl⟩ := hrun
      rfl
  | cons e es ih =>
      obtain ⟨s₁, o₁, os, hs, hr, rfl⟩ := run_cons.mp hrun
      obtain ⟨hover, htail⟩ := hlast
      have hrest := ih (fun m hm => hoid m (List.mem_cons_of_mem _ hm)) hr (htail s₁ o₁ hs)
      rw [ackIds_append, hrest]
      by_cases he : e.NotOrder
      · have hq := step_quiet he hs
        rw [ackIds_of_passive hq.passive, hq.currId, orderCount_cons_of_notOrder he]
        rfl
      · cases e with
        | order m =>
            obtain ⟨hacks, hlim | ⟨-, hcurr⟩⟩ := order_ackIds (hoid m List.mem_cons_self) hs
            · -- over a limit: no order follows
              rw [hacks, orderCount, orderCount_eq_zero (hover hlim)]
              simp
            · rw [hacks, hcurr, orderCount, counting_succ]
              rfl
        | _ => exact absurd trivial he

theorem nodup_counting (k : UInt32) {n : ℕ} (hn : n ≤ 2 ^ 32) :
    ((List.range n).map fun i => k + UInt32.ofNat i).Nodup := by
  refine List.Nodup.map_on ?_ List.nodup_range
  intro i hi j hj hij
  have hi' : i < 2 ^ 32 := lt_of_lt_of_le (List.mem_range.mp hi) hn
  have hj' : j < 2 ^ 32 := lt_of_lt_of_le (List.mem_range.mp hj) hn
  have hsame := congrArg UInt32.toNat (UInt32.add_right_inj k |>.mp hij)
  rwa [UInt32.toNat_ofNat_of_lt' hi', UInt32.toNat_ofNat_of_lt' hj'] at hsame

theorem rejectedLast_of_nodup (hoid : ∀ m, .order m ∈ es → m.oid < 0)
    (hrun : run (step c) s es = some (s', out)) (hnodup : (ackIds out).Nodup) :
    RejectedLast c s es := by
  induction es generalizing s out with
  | nil => trivial
  | cons e es ih =>
      obtain ⟨s₁, o₁, os, hs, hr, rfl⟩ := run_cons.mp hrun
      rw [ackIds_append] at hnodup
      obtain ⟨-, hrest, hdisj⟩ := List.nodup_append.mp hnodup
      have hoid' : ∀ m, .order m ∈ es → m.oid < 0 := fun m hm => hoid m (List.mem_cons_of_mem _ hm)
      refine ⟨?_, ?_⟩
      · intro hover e' he'
        by_contra hord
        cases e with
        | order m =>
            obtain ⟨hlim, rfl, rfl⟩ | ⟨hlim, -⟩ := orderHandler_cases hs
            · -- the id acked here is acked again by the next order
              refine hdisj s₁.currId (by simp [ackIds, Sent.ackId]) s₁.currId ?_ rfl
              refine currId_mem_ackIds hoid' hr ?_
              cases e' with
              | order m' => exact ⟨m', he'⟩
              | _ => exact absurd trivial hord
            · simp only [OverLimitAt, hlim, Option.some.injEq] at hover
              cases hover
        | _ => cases hover
      · intro s₂ o₂ hs₂
        rw [hs] at hs₂
        cases hs₂
        exact ih hoid' hr hrest

/-- **Order ids are unique exactly when a rejection for a limit is the last order.**  For
    every run of at most 2^32 orders, each of them sent without an id. -/
theorem idsUnique_iff_rejectedLast {venue : ℕ} {posLimit sizeLimit : ℕ → ℤ}
    (hrun : run (step c) (State.new venue posLimit sizeLimit) es = some (s, out))
    (hoid : ∀ m, .order m ∈ es → m.oid < 0) (hcount : orderCount es ≤ 2 ^ 32) :
    IdsUnique s out ↔ RejectedLast c (State.new venue posLimit sizeLimit) es := by
  constructor
  · intro h
    exact rejectedLast_of_nodup hoid hrun h.nodup
  · intro hlast
    have hnodup : (ackIds out).Nodup := by
      rw [ackIds_of_rejectedLast hoid hrun hlast]
      exact nodup_counting _ hcount
    refine ⟨hnodup, ?_⟩
    intro client id m hack hm
    exact ack_unique hnodup (run_storedAcked hrun id m hm) hack

/-! ### Runs of a small order manager -/

/-- One asset, one simulated book. -/
def smallCfg : Cfg where
  simMode := true
  numAssets := 1
  isCusipAsset := fun _ => false
  orderBooks := fun _ _ => some 100
  self := 0

/-- A buy order of a client. -/
def buyOrder (client : ℕ) (sz : ℤ) : Order where
  venue := 0
  sym := 0
  sz := sz
  px := 100
  stillToBeFilled := sz
  side := .buy
  owner := 0
  sender := client

/-- An order manager with a limit of 10 on position and size. -/
def limitTen : State :=
  State.new 0 (fun _ => 10) (fun _ => 10)

/-- The small order over the run: client 2 buys 5, then client 1 asks for 20. -/
theorem idsUnique_rejectedLast :
    ∃ s out, run (step smallCfg) limitTen [.order (buyOrder 2 5), .order (buyOrder 1 20)] =
      some (s, out) ∧ IdsUnique s out := by
  have heval : (run (step smallCfg) limitTen
      [.order (buyOrder 2 5), .order (buyOrder 1 20)]).isSome = true := by decide +kernel
  obtain ⟨⟨s, out⟩, hrun⟩ := Option.isSome_iff_exists.mp heval
  refine ⟨s, out, hrun, (idsUnique_iff_rejectedLast hrun ?_ (by decide)).mpr ?_⟩
  · intro m hm
    simp only [List.mem_cons, Event.order.injEq, List.not_mem_nil, or_false] at hm
    rcases hm with rfl | rfl <;> decide
  · refine ⟨?_, fun _ _ _ => ⟨fun _ _ h => (by cases h), fun _ _ _ => trivial⟩⟩
    intro hover
    have hfirst : State.checkLimit smallCfg limitTen (buyOrder 2 5) = some false := by
      decide +kernel
    simp only [OverLimitAt] at hover
    rw [show State.new 0 (fun _ => 10) (fun _ => 10) = limitTen from rfl, hfirst] at hover
    cases hover

/-- Client 1 asks for 20 and is acked and rejected under id 0; client 2 then buys 5 and is
    acked under id 0 too, so client 1's id names client 2's order. -/
theorem overLimit_id_reused :
    ∃ s out, run (step smallCfg) limitTen [.order (buyOrder 1 20), .order (buyOrder 2 5)] =
      some (s, out) ∧ ¬ IdsUnique s out ∧ ⟨1, .ack 0⟩ ∈ out ∧
      (s.orders.lookup 0).map Order.sender = some 2 := by
  have heval : (run (step smallCfg) limitTen
      [.order (buyOrder 1 20), .order (buyOrder 2 5)]).map (fun r =>
        (ackIds r.2, decide (⟨1, .ack 0⟩ ∈ r.2), (r.1.orders.lookup 0).map Order.sender)) =
        some ([0, 0], true, some 2) := by decide +kernel
  obtain ⟨⟨s, out⟩, hrun, heq⟩ := Option.map_eq_some_iff.mp heval
  simp only [Prod.mk.injEq, decide_eq_true_eq] at heq
  obtain ⟨hacks, hmem, hlookup⟩ := heq
  refine ⟨s, out, hrun, fun h => ?_, hmem, hlookup⟩
  have hnodup := h.nodup
  rw [hacks] at hnodup
  exact absurd hnodup (by decide)

end KasparHft.Som
