import KasparHft.SomOrderIds

/-!
# The life of an order

An acked order is forwarded once or rejected once, and a stored order that is not marked
was forwarded and has had no terminal message, in every run in which no order within its
limits arrives while trading is stopped or, live, for a venue without an order manager.
The stopped branch of `order_handler` rejects the order but leaves it stored and unmarked,
and the live branch without a manager does neither.
-/

namespace KasparHft.Som

open AssocMap Machine

variable {c : Cfg} {s s' : State} {o out : List Sent} {es : List Event}

/-! ### Forwarded and rejected ids -/

/-- The id under which a message forwards an order, `OrderID::id` of a book's reference. -/
def Sent.forwardId (x : Sent) : Option UInt32 :=
  match x.msg with
  | .order m => some m.oid.toUInt32
  | .bookData d => if d.isCancel then none else some (UInt32.ofNat d.orderRef)
  | _ => none

/-- The id a message rejects. -/
def Sent.rejectId (x : Sent) : Option UInt32 :=
  match x.msg with
  | .reject id _ => some id
  | _ => none

def forwardIds (o : List Sent) : List UInt32 :=
  o.filterMap Sent.forwardId

def rejectIds (o : List Sent) : List UInt32 :=
  o.filterMap Sent.rejectId

theorem cancels_forwardIds (h : CancelsOnly o) : forwardIds o = [] ∧ rejectIds o = [] := by
  constructor
  · refine List.filterMap_eq_nil_iff.mpr ?_
    intro x hx
    have hcancel := h x hx
    obtain ⟨dest, msg⟩ := x
    cases msg <;> simp_all [Msg.IsCancel, Sent.forwardId]
  · refine List.filterMap_eq_nil_iff.mpr ?_
    intro x hx
    have hcancel := h x hx
    obtain ⟨dest, msg⟩ := x
    cases msg <;> simp_all [Msg.IsCancel, Sent.rejectId]

/-- `OrderID::id` undoes `OrderID::longid`. -/
theorem ofNat_longid (venue : ℕ) (id : UInt32) : UInt32.ofNat (longid venue id) = id := by
  refine UInt32.toNat_inj.mp ?_
  have hid := id.toNat_lt
  simp only [longid, UInt32.toNat_ofNat']
  omega

/-! ### What an order is answered -/

/-- An order acked under `id` is forwarded once, or rejected once. -/
def AnsweredOnce (id : UInt32) (o : List Sent) : Prop :=
  ackIds o = [id] ∧
    ((forwardIds o = [id] ∧ rejectIds o = []) ∨ (forwardIds o = [] ∧ rejectIds o = [id]))

/-- The order handler can place or refuse the order: one within limits does not arrive
    without an id while trading is stopped nor, live, for a venue without a manager. -/
def Placeable (c : Cfg) (s : State) : Event → Prop
  | .order m =>
      s.checkLimit c m = some false →
        (s.stopped = true → ¬ m.oid < 0) ∧
        (s.stopped = false → c.simMode = true ∨ (s.orderManagers m.venue).isSome)
  | _ => True

theorem Accepted.forwardIds_eq {m n : Order} {o₂ o₃ : List Sent}
    (h : Accepted c s m s' o n o₂ o₃) :
    forwardIds o = forwardIds o₃ ∧ rejectIds o = rejectIds o₃ := by
  obtain ⟨hforward, hreject⟩ := cancels_forwardIds h.cancels
  rw [h.sent]
  constructor
  · simp only [forwardIds, List.filterMap_cons, List.filterMap_append] at hforward ⊢
    simp [Sent.forwardId, hforward]
  · simp only [rejectIds, List.filterMap_cons, List.filterMap_append] at hreject ⊢
    simp [Sent.rejectId, hreject]

/-- An accepted order that can be placed is answered once; if it is not forwarded, nothing
    was stored for it. -/
theorem Accepted.answeredOnce {m n : Order} {o₂ o₃ : List Sent}
    (h : Accepted c s m s' o n o₂ o₃) (hlim : s.checkLimit c m = some false)
    (hplace : Placeable c s (.order m)) :
    ackIds o = [n.oid.toUInt32] ∧ rejectIds o = [] ∧ forwardIds o = [n.oid.toUInt32] ∨
      ackIds o = [n.oid.toUInt32] ∧ rejectIds o = [n.oid.toUInt32] ∧ forwardIds o = [] ∧
        s' = s := by
  obtain ⟨hacks, -⟩ := h.ackIds_eq
  obtain ⟨hforward, hreject⟩ := h.forwardIds_eq
  obtain ⟨hid, hmgr⟩ := hplace hlim
  have hstopped : (s.assignId m).1.stopped = s.stopped ∧
      (s.assignId m).1.orderManagers = s.orderManagers := by
    by_cases hneg : m.oid < 0
    · rw [assignId_of_neg hneg]
      exact ⟨rfl, rfl⟩
    · rw [assignId_of_nonneg hneg]
      exact ⟨rfl, rfl⟩
  have hvenue : n.venue = m.venue := by
    have hsame := (assignId_sameRequest s m).1.venue
    rcases h.request with rfl | rfl
    · exact hsame.symm
    · exact hsame.symm
  obtain ⟨hst, hs', ho⟩ | ⟨-, -, -, book, ho⟩ | ⟨hst, hsim, hnone, -, -⟩ |
    ⟨-, -, om, -, -, ho⟩ := placeOrder_cases h.placed
  · right
    have hneg := hid (hstopped.1 ▸ hst)
    rw [assignId_of_nonneg hneg] at hs'
    refine ⟨hacks, ?_, ?_, hs'⟩
    · rw [hreject, ho]
      rfl
    · rw [hforward, ho]
      rfl
  · left
    refine ⟨hacks, ?_, ?_⟩
    · rw [hreject, ho]
      rfl
    · rw [hforward, ho]
      simp [forwardIds, Sent.forwardId, addData, ofNat_longid]
  · -- live without a manager
    rcases hmgr (hstopped.1 ▸ hst) with hsim' | hsome
    · rw [hsim'] at hsim
      cases hsim
    · rw [hstopped.2, hvenue] at hnone
      rw [hnone] at hsome
      cases hsome
  · left
    refine ⟨hacks, ?_, ?_⟩
    · rw [hreject, ho]
      rfl
    · rw [hforward, ho]
      simp [forwardIds, Sent.forwardId, Order.forwarded]

/-! ### Terminal messages -/

/-- A message from the venue that ends the order `id`. -/
def Event.TerminalFor (id : UInt32) : Event → Prop
  | .fill f => f.id = id ∧ f.stillToBeFilled ≤ 1 / 10000000
  | .cancAck id' _ sz => id' = id ∧ sz ≤ 0
  | .reject id' _ => id' = id
  | _ => False

/-- After its terminal message an order is gone or marked. -/
theorem not_working_of_terminal {e : Event} {id : UInt32} {r : Order}
    (he : e.TerminalFor id) (h : step c s e = some (s', o))
    (hr : s'.orders.lookup id = some r) : ¬ r.Working := by
  cases e with
  | fill f =>
      obtain ⟨rfl, hleft⟩ := he
      obtain ⟨-, ⟨hnone, rfl, -⟩ | ⟨ord, p, -, -, rfl, -⟩⟩ := fillHandler_cases h
      · rw [hnone] at hr
        cases hr
      · simp only [State.setPos, AList.lookup_insert, Option.some.injEq] at hr
        subst hr
        intro hworking
        obtain ⟨-, hdec⟩ := Bool.or_eq_false_iff.mp hworking.1
        exact of_decide_eq_false hdec hleft
  | cancAck id' fillsz sz =>
      obtain ⟨rfl, hsz⟩ := he
      simp only [step, State.cancAckHandler] at h
      split at h
      · rename_i hnone
        cases h
        rw [hnone] at hr
        cases hr
      · simp only [hsz, if_true, Option.some.injEq, Prod.mk.injEq] at h
        obtain ⟨rfl, -⟩ := h
        rw [AList.lookup_erase] at hr
        cases hr
  | reject id' reason =>
      simp only [Event.TerminalFor] at he
      subst he
      simp only [step, State.rejHandler] at h
      split at h
      · rename_i hnone
        cases h
        rw [hnone] at hr
        cases hr
      · cases h
        rw [AList.lookup_erase] at hr
        cases hr
  | _ => cases he

/-! ### Runs -/

/-- Every stored order that is not marked was forwarded when it was acked and has had no
    terminal message since; every order was acked, and forwarded once or rejected once. -/
structure Lifecycle (tr : List (Event × List Sent)) (s : State) : Prop where
  working : ∀ id r, s.orders.lookup id = some r → r.Working →
    ∃ before m o after, tr = before ++ (.order m, o) :: after ∧ m.SameRequest r ∧
      ackIds o = [id] ∧ forwardIds o = [id] ∧ rejectIds o = [] ∧
      ∀ x ∈ after, ¬ x.1.TerminalFor id
  answered : ∀ m o, (.order m, o) ∈ tr → ∃ id, AnsweredOnce id o
  forwarded : ∀ e o, (e, o) ∈ tr → e.NotOrder → ackIds o = [] ∧ forwardIds o = []

theorem forwardIds_of_passive (h : ∀ x ∈ o, x.msg.Passive) : forwardIds o = [] := by
  refine List.filterMap_eq_nil_iff.mpr ?_
  intro x hx
  have hpassive := h x hx
  obtain ⟨dest, msg⟩ := x
  cases msg <;> simp_all [Msg.Passive, Sent.forwardId]

/-- What was said of a stored order still holds after a message that does not end it. -/
theorem Lifecycle.working_concat {tr : List (Event × List Sent)} (h : Lifecycle tr s)
    {e : Event} {id : UInt32} {q r : Order} (hq : s.orders.lookup id = some q)
    (hcont : q.Continues r) (hr : r.Working) (he : ¬ e.TerminalFor id) :
    ∃ before m o' after, tr ++ [(e, o)] = before ++ (.order m, o') :: after ∧
      m.SameRequest r ∧ ackIds o' = [id] ∧ forwardIds o' = [id] ∧ rejectIds o' = [] ∧
      ∀ x ∈ after, ¬ x.1.TerminalFor id := by
  obtain ⟨before, m, o', after, rfl, hsame, hack, hforward, hreject, hafter⟩ :=
    h.working id q hq (hcont.working hr)
  refine ⟨before, m, o', after ++ [(e, o)], by simp, hsame.trans hcont.same, hack, hforward,
    hreject, ?_⟩
  intro x hx
  rcases List.mem_append.mp hx with hx | hx
  · exact hafter x hx
  · rw [List.mem_singleton.mp hx]
    exact he

theorem Lifecycle.step_quiet {tr : List (Event × List Sent)} (h : Lifecycle tr s) {e : Event}
    (he : e.NotOrder) (hstep : step c s e = some (s', o)) : Lifecycle (tr ++ [(e, o)]) s' := by
  have hq := Som.step_quiet he hstep
  refine ⟨?_, ?_, ?_⟩
  · intro id r hr hworking
    obtain ⟨q, hlookup, hcont⟩ := hq.continues id r hr
    exact h.working_concat hlookup hcont hworking fun hterm =>
      not_working_of_terminal hterm hstep hr hworking
  · intro m o' hmem
    rcases List.mem_append.mp hmem with hmem | hmem
    · exact h.answered m o' hmem
    · cases List.mem_singleton.mp hmem
      cases he
  · intro e' o' hmem he'
    rcases List.mem_append.mp hmem with hmem | hmem
    · exact h.forwarded e' o' hmem he'
    · cases List.mem_singleton.mp hmem
      exact ⟨ackIds_of_passive hq.passive, forwardIds_of_passive hq.passive⟩

theorem Lifecycle.step_order {tr : List (Event × List Sent)} (h : Lifecycle tr s) {m : Order}
    (hplace : Placeable c s (.order m)) (hstep : step c s (.order m) = some (s', o)) :
    Lifecycle (tr ++ [(.order m, o)]) s' := by
  -- a request neither ends an order nor is a message of the venue
  have hforwarded : ∀ e o', (e, o') ∈ tr ++ [(.order m, o)] → e.NotOrder →
      ackIds o' = [] ∧ forwardIds o' = [] := by
    intro e o' hmem he
    rcases List.mem_append.mp hmem with hmem | hmem
    · exact h.forwarded e o' hmem he
    · cases List.mem_singleton.mp hmem
      cases he
  have hanswered : (∃ id, AnsweredOnce id o) → ∀ m' o', (.order m', o') ∈ tr ++ [(.order m, o)] →
      ∃ id, AnsweredOnce id o' := by
    intro hans m' o' hmem
    rcases List.mem_append.mp hmem with hmem | hmem
    · exact h.answered m' o' hmem
    · cases List.mem_singleton.mp hmem
      exact hans
  obtain ⟨-, rfl, rfl⟩ | ⟨hlim, n, o₂, o₃, hacc⟩ := orderHandler_cases hstep
  · refine ⟨?_, hanswered ⟨s'.currId, rfl, .inr ⟨rfl, rfl⟩⟩, hforwarded⟩
    intro id r hr hworking
    exact h.working_concat hr (.refl r) hworking fun hterm => by cases hterm
  · obtain ⟨hack, hreject, hforward⟩ | ⟨hack, hreject, hforward, rfl⟩ :=
      hacc.answeredOnce hlim hplace
    · refine ⟨?_, hanswered ⟨_, hack, .inl ⟨hforward, hreject⟩⟩, hforwarded⟩
      intro id r hr hworking
      rcases hacc.stored id r hr with hold | ⟨rfl, hcont⟩
      · exact h.working_concat hold (.refl r) hworking fun hterm => by cases hterm
      · exact ⟨tr, m, o, [], rfl, hcont.same, hack, hforward, hreject, fun x hx => by cases hx⟩
    · refine ⟨?_, hanswered ⟨_, hack, .inr ⟨hforward, hreject⟩⟩, hforwarded⟩
      intro id r hr hworking
      exact h.working_concat hr (.refl r) hworking fun hterm => by cases hterm

/-- **The life of an order.**  In every run in which each order within limits can be placed,
    what is stored and unmarked is at the venue, and every order is answered once. -/
theorem lifecycle_of_placeable {venue : ℕ} {posLimit sizeLimit : ℕ → ℤ}
    (hrun : run (step c) (State.new venue posLimit sizeLimit) es = some (s, out))
    (hplace : AllSteps (step c) (Placeable c) (State.new venue posLimit sizeLimit) es) :
    Lifecycle (trace (step c) (State.new venue posLimit sizeLimit) es) s := by
  refine trace_induction ?_ ?_ hplace hrun
  · exact ⟨fun id r hr => (by cases hr), fun m o hmem => (by cases hmem),
      fun e o hmem => (by cases hmem)⟩
  · intro tr m e m' o hI hP hstep
    by_cases he : e.NotOrder
    · exact hI.step_quiet he hstep
    · cases e with
      | order req => exact hI.step_order hP hstep
      | _ => exact absurd trivial he

/-- A buy that is acked, placed on the book and then cancelled. -/
theorem lifecycle_of_cancelled_order :
    ∃ s out, run (step smallCfg) limitTen [.order (buyOrder 1 5), .cancAck 0 5 0] =
      some (s, out) ∧
      Lifecycle (trace (step smallCfg) limitTen [.order (buyOrder 1 5), .cancAck 0 5 0]) s := by
  have heval : (run (step smallCfg) limitTen
      [.order (buyOrder 1 5), .cancAck 0 5 0]).isSome = true := by decide +kernel
  obtain ⟨⟨s, out⟩, hrun⟩ := Option.isSome_iff_exists.mp heval
  refine ⟨s, out, hrun, lifecycle_of_placeable hrun ?_⟩
  refine allSteps_cons.mpr ⟨?_, fun s₁ o₁ _ => allSteps_cons.mpr ⟨trivial, fun _ _ _ => trivial⟩⟩
  intro _
  exact ⟨fun hstopped => (by cases hstopped), fun _ => .inl rfl⟩

/-- While trading is stopped an order is acked and rejected, and stays in the map unmarked
    though it was never forwarded; live without a manager it is acked and nothing else. -/
theorem stopped_order_stays_working :
    (∃ s out, run (step smallCfg) limitTen [.stop, .order (buyOrder 1 5)] = some (s, out) ∧
      ¬ Lifecycle (trace (step smallCfg) limitTen [.stop, .order (buyOrder 1 5)]) s) ∧
    (∃ s out, run (step { smallCfg with simMode := false }) limitTen
        [.order (buyOrder 1 5)] = some (s, out) ∧
      ¬ Lifecycle (trace (step { smallCfg with simMode := false }) limitTen
        [.order (buyOrder 1 5)]) s) := by
  constructor
  · have heval : (run (step smallCfg) limitTen [.stop, .order (buyOrder 1 5)]).map (fun r =>
        (r.1.orders.lookup 0).map fun r => decide r.Working) = some (some true) := by
      decide +kernel
    have hnone : ∀ x ∈ trace (step smallCfg) limitTen [.stop, .order (buyOrder 1 5)],
        forwardIds x.2 ≠ [0] := by decide +kernel
    obtain ⟨⟨s, out⟩, hrun, hlookup⟩ := Option.map_eq_some_iff.mp heval
    obtain ⟨r, hr, hworking⟩ := Option.map_eq_some_iff.mp hlookup
    refine ⟨s, out, hrun, fun h => ?_⟩
    obtain ⟨before, m, o, after, htr, -, -, hforward, -⟩ :=
      h.working 0 r hr (of_decide_eq_true hworking)
    refine hnone (.order m, o) ?_ hforward
    rw [htr]
    exact List.mem_append_right _ List.mem_cons_self
  · have heval : (run (step { smallCfg with simMode := false }) limitTen
        [.order (buyOrder 1 5)]).map (fun r => (forwardIds r.2, rejectIds r.2)) =
          some ([], []) := by decide +kernel
    obtain ⟨⟨s, out⟩, hrun, heq⟩ := Option.map_eq_some_iff.mp heval
    refine ⟨s, out, hrun, fun h => ?_⟩
    obtain ⟨s₁, o, os, hs, hr, rfl⟩ := run_cons.mp hrun
    cases hr
    simp only [List.append_nil, Prod.mk.injEq] at heq
    obtain ⟨id, -, ⟨hforward, -⟩ | ⟨-, hreject⟩⟩ :=
      h.answered (buyOrder 1 5) o (by simp [trace, hs])
    · rw [heq.1] at hforward
      cases hforward
    · rw [heq.2] at hreject
      cases hreject

end KasparHft.Som
