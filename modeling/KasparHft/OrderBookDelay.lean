import KasparHft.OrderBookGate

/-!
# The delay of our orders

Our orders and cancels wait in `del_q` for the time they take to the engine.  The queue is
taken from its head, by each payload that `process_q` is handed, as far as the time of that
payload has passed what waits; an order behind one that still has to wait stays.

So what has gone through and what waits are together what arrived, in that order.  A record
that never gets as far as `process_q` lets nothing through, however late it is.
-/

namespace KasparHft.OB

open AssocMap FillSlate Machine

variable {Px : Type} {cfg : FeedCfg} {ops : PriceOps Px} {s s' : State Px}

/-! ### What goes through -/

/-- Our orders that an act lets through. -/
def Act.released : Act → List (SimPl × Option ℕ)
  | .round sims _ => sims
  | _ => []

theorem Pops.delQ {tim : ℕ} {sims : List (SimPl × Option ℕ)} {o : List Sent}
    (h : Pops cfg tim s sims o s') : s.delQ = sims ++ s'.delQ := by
  induction h with
  | nil s => rfl
  | cons hhead hdue happly _ ih =>
      rw [hhead, List.cons_append, ← ih]

theorem Pops.due {tim : ℕ} {sims : List (SimPl × Option ℕ)} {o : List Sent}
    (h : Pops cfg tim s sims o s') : ∀ x ∈ sims, arriveTime cfg x.1.toPl < tim := by
  induction h with
  | nil s => exact fun x hx => (List.not_mem_nil hx).elim
  | cons hhead hdue happly _ ih => exact List.forall_mem_cons.mpr ⟨hdue, ih⟩

theorem Does.delQ {a : Act} {o : List Sent} (h : Does cfg s a o s') :
    a.released ++ s'.delQ = s.delQ ++ a.waits := by
  cases h with
  | round hmev hreal hpops hhead happly =>
      rw [processMarketData_delQ happly, hpops.delQ]
      exact (List.append_nil _).symm
  | direct huntimed happly =>
      rw [processMarketData_delQ happly]
      exact (List.append_nil _).symm
  | clear hclear =>
      obtain ⟨r, -, heq⟩ := Option.map_eq_some_iff.mp hclear
      cases heq
      exact (List.append_nil _).symm
  | wait p sender => rfl
  | stamp hbook hgood hdel hpub hhi hlo hbbbo => exact hdel.trans (List.append_nil _).symm
  | subscribe hgood hdel hpub hhi hlo => exact hdel.trans (List.append_nil _).symm

/-- What went through and what waits are what waited and what came, in that order. -/
theorem Path.delQ {acts : List Act} {o : List Sent} (h : Path cfg s acts o s') :
    acts.flatMap Act.released ++ s'.delQ = s.delQ ++ acts.flatMap Act.waits := by
  induction h with
  | nil hquiet => exact hquiet.delQ.trans (List.append_nil _).symm
  | cons hquiet hact _ ih =>
      rw [List.flatMap_cons, List.flatMap_cons, List.append_assoc, ih, ← List.append_assoc,
        hact.delQ, hquiet.delQ, List.append_assoc]

/-- Each of our orders goes through for a payload whose time has passed it. -/
def InTime (cfg : FeedCfg) (acts : List Act) : Prop :=
  ∀ sims pl, .round sims pl ∈ acts → ∀ x ∈ sims, arriveTime cfg x.1.toPl < pl.tim

theorem Path.inTime {acts : List Act} {o : List Sent} (h : Path cfg s acts o s') :
    InTime cfg acts := by
  induction h with
  | nil hquiet => exact fun sims pl ha => (List.not_mem_nil ha).elim
  | cons hquiet hact _ ih =>
      intro sims pl ha
      rcases List.mem_cons.mp ha with rfl | ha
      · cases hact with
        | round hmev hreal hpops hhead happly => exact hpops.due
      · exact ih sims pl ha

/-! ### What stays -/

/-- What waits first still has to wait at `tim`. -/
def HeadWaits (cfg : FeedCfg) (tim : ℕ) (s : State Px) : Prop :=
  ∀ x ∈ s.delQ.head?, tim ≤ arriveTime cfg x.1.toPl

theorem HeadWaits.congr {tim : ℕ} (h : HeadWaits cfg tim s) (hdel : s'.delQ = s.delQ) :
    HeadWaits cfg tim s' := by
  unfold HeadWaits
  rw [hdel]
  exact h

/-- If all that waits is due, nothing does. -/
theorem HeadWaits.empty {tim : ℕ} (h : HeadWaits cfg tim s)
    (hdue : ∀ x ∈ s.delQ, arriveTime cfg x.1.toPl < tim) : s.delQ = [] := by
  rcases hq : s.delQ with _ | ⟨x, q⟩
  · rfl
  · have hwaits := h x (by rw [hq]; rfl)
    have hpast := hdue x (by rw [hq]; exact List.mem_cons_self)
    omega

/-- A payload of another time takes nothing from behind a head that has to wait. -/
theorem Pops.headWaits {tim tim' : ℕ} {sims : List (SimPl × Option ℕ)} {o : List Sent}
    (h : Pops cfg tim' s sims o s') (hs : HeadWaits cfg tim s) (hs' : HeadWaits cfg tim' s') :
    HeadWaits cfg tim s' := by
  cases h with
  | nil => exact hs
  | cons hhead hdue happly hrest =>
      intro x hx
      have hbefore := hs _ (by rw [hhead]; rfl)
      exact (hbefore.trans hdue.le).trans (hs' x hx)

theorem Does.headWaits {tim : ℕ} {a : Act} {o : List Sent} (h : Does cfg s a o s')
    (ha : a.IsRound) (hs : HeadWaits cfg tim s) : HeadWaits cfg tim s' := by
  cases h with
  | round hmev hreal hpops hhead happly =>
      exact (hpops.headWaits hs hhead).congr (processMarketData_delQ happly)
  | direct => exact ha.elim
  | clear => exact ha.elim
  | wait => exact ha.elim
  | stamp => exact ha.elim
  | subscribe => exact ha.elim

theorem Rounds.headWaits {tim : ℕ} {acts : List Act} {o : List Sent}
    (h : Rounds cfg s acts o s') (hs : HeadWaits cfg tim s) : HeadWaits cfg tim s' := by
  obtain ⟨hpath, hacts⟩ := h
  induction hpath with
  | nil hquiet => exact hs.congr hquiet.delQ
  | cons hquiet hact _ ih =>
      obtain ⟨ha, hrest⟩ := List.forall_mem_cons.mp hacts
      exact ih (hact.headWaits ha (hs.congr hquiet.delQ)) hrest

/-- After the record's own round, what waits first has to wait at the time of the record. -/
theorem Rounds.headWaits_of_hasRound {m : Mbo Px} {acts : List Act} {o : List Sent}
    (h : Rounds cfg s acts o s') (hround : HasRound m acts) :
    HeadWaits cfg m.transactTime s' := by
  obtain ⟨hpath, hacts⟩ := h
  obtain ⟨sims, pl, hmem, htim⟩ := hround
  induction hpath with
  | nil hquiet => exact (List.not_mem_nil hmem).elim
  | cons hquiet hact hrest ih =>
      obtain ⟨ha, htail⟩ := List.forall_mem_cons.mp hacts
      rcases List.mem_cons.mp hmem with rfl | hmem
      · have hrounds : Rounds cfg _ _ _ _ := ⟨hrest, htail⟩
        apply hrounds.headWaits
        cases hact with
        | round hmev hreal hpops hhead happly =>
            rw [← htim]
            exact HeadWaits.congr hhead (processMarketData_delQ happly)
      · exact ih htail hmem

/-! ### Records -/

/-- The record gets as far as `process_q`, if the gate lets it through: the first record of a
    snapshot finds the map cleared. -/
def Concerns (ops : PriceOps Px) (s : State Px) (m : Mbo Px) : Prop :=
  if m.recovery = true ∧ s.isInRecovery = false then
    m.orderUpdateAction = 0 ∧ ops.pos m.pxd = true
  else Drives ops s m

/-- What a record leaves: it has had its own round, what waits first still has to wait, and if
    all that waited was due, nothing waits. -/
structure Drained (cfg : FeedCfg) (s : State Px) (m : Mbo Px) (o : List Sent) (s' : State Px) :
    Prop where
  round : ∃ acts, Path cfg s acts o s' ∧ HasRound m acts ∧
    ∀ a ∈ acts, a.IsRound ∨ IsClear a ∨ a = .stamp
  head : HeadWaits cfg m.transactTime s'
  empty : (∀ x ∈ s.delQ, arriveTime cfg x.1.toPl < m.transactTime) → s'.delQ = []

theorem Concerns.drives {m : Mbo Px} {s₁ : State Px} (h : Concerns ops s m)
    (hlookup : s₁.ordermap.lookup m.orderID =
      if m.recovery = true ∧ s.isInRecovery = false then none
      else s.ordermap.lookup m.orderID) : Drives ops s₁ m := by
  unfold Concerns at h
  unfold Drives
  rw [hlookup]
  split at h
  next hbegins =>
    rw [if_pos hbegins]
    exact h
  next hnot =>
    rw [if_neg hnot]
    exact h

/-- A record that is let through and concerns the book has a round of its own. -/
theorem mbo_drained {m : Mbo Px} {o : List Sent} (hs : Held cfg ops s)
    (hreaches : Reaches cfg ops m) (hpass : (s.gate m).2 = true) (hconcerns : Concerns ops s m)
    (h : handle cfg ops s (.mbo m) = some (s', o)) : Drained cfg s m o s' := by
  have hmbo : (s.firstRecord cfg m.transactTime false).onMbo cfg ops m = some (s', o) := h
  rcases onMbo_cases hmbo with ⟨hnot, -⟩ | ⟨-, hrej, -⟩ | ⟨-, -, s₁, o₁, o₂, htrack, happly, rfl⟩
  · exact absurd hreaches hnot
  · rw [gate_stamped_snd, hpass] at hrej
    cases hrej
  · -- the state the record meets after the gate
    have hsame := (firstRecord_sameHeld cfg s m.transactTime false).trans (gate_sameHeld _ m)
    have hrecovery : (((s.firstRecord cfg m.transactTime false).stamped m).gate m).1.isInRecovery =
        s.isInRecovery := by
      rw [gate_isInRecovery]
      exact (firstRecord_recovery cfg s m.transactTime false).2.2
    obtain ⟨acts, htracked, hclears, hs₁, hlookup⟩ := trackRecovery_path (hs.of_same hsame) htrack
    rw [hsame.1, hrecovery] at hlookup
    obtain ⟨acts', hrounds, -, hown, -⟩ := applyMbo_rounds hs₁ rfl hreaches.not_new happly
    have hround := hown (hconcerns.drives hlookup)
    have hgated := Path.cons (Quiet.refl _) (gate_stamp _ m) (htracked.append hrounds.1)
    have hpath : Path cfg s (.stamp :: .stamp :: (acts ++ acts')) (o₁ ++ o₂) s' := by
      have hcons := Path.cons (Quiet.refl s) (firstRecord_stamp s m.transactTime false) hgated
      exact hcons
    have hhead := hrounds.headWaits_of_hasRound hround
    refine ⟨⟨_, hpath, ?_, ?_⟩, hhead, ?_⟩
    · obtain ⟨sims, pl, hmem, htim⟩ := hround
      refine ⟨sims, pl, ?_, htim⟩
      exact List.mem_cons_of_mem _ (List.mem_cons_of_mem _ (List.mem_append_right _ hmem))
    · intro a ha
      rcases List.mem_cons.mp ha with rfl | ha
      · exact .inr (.inr rfl)
      rcases List.mem_cons.mp ha with rfl | ha
      · exact .inr (.inr rfl)
      rcases List.mem_append.mp ha with ha | ha
      · exact .inr (.inl (hclears a ha))
      · exact .inl (hrounds.2 a ha)
    · intro hdue
      apply hhead.empty
      -- nothing joins the queue, so what is left was there before
      have hwaits : (Act.stamp :: .stamp :: (acts ++ acts')).flatMap Act.waits = [] := by
        rw [List.flatMap_cons, List.flatMap_cons, List.flatMap_append, waits_of_clears hclears,
          waits_of_rounds hrounds.2]
        rfl
      have hqueue := hpath.delQ
      rw [hwaits, List.append_nil] at hqueue
      intro x hx
      apply hdue
      rw [← hqueue]
      exact List.mem_append_right _ hx

/-! ### Runs -/

/-- What has arrived so far. -/
def noteArrival (s : State Px) (e : Event Px) (arrived : List (SimPl × Option ℕ)) :
    List (SimPl × Option ℕ) :=
  arrived ++ s.arrival e

/-- The book with the arrivals of our orders. -/
abbrev delayStep (cfg : FeedCfg) (ops : PriceOps Px) :=
  withGhost (handle cfg ops) noteArrival

/-- The acts of a run so far: each of our orders went through in its time, and what went
    through and what waits are what arrived, in that order. -/
structure Delayed (cfg : FeedCfg) (ops : PriceOps Px) (out : List Sent) (s : State Px)
    (arrived : List (SimPl × Option ℕ)) : Prop where
  acts : ∃ acts, Path cfg (State.new Px cfg) acts out s ∧ InTime cfg acts ∧
    acts.flatMap Act.released ++ s.delQ = arrived
  held : Held cfg ops s

theorem held_new (cfg : FeedCfg) (ops : PriceOps Px) : Held cfg ops (State.new Px cfg) :=
  (gated_new cfg ops).held

theorem delayed_of_run {es : List (Event Px)} {out : List Sent}
    {arrived : List (SimPl × Option ℕ)}
    (hrun : run (delayStep cfg ops) (State.new Px cfg, []) es = some ((s, arrived), out)) :
    Delayed cfg ops out s arrived := by
  refine run_invariant (I := fun _ out sg => Delayed cfg ops out sg.1 sg.2) ?_ ?_ hrun
  · refine ⟨⟨[], .nil (Quiet.refl _), ?_, rfl⟩, held_new cfg ops⟩
    exact fun _ _ ha => (List.not_mem_nil ha).elim
  · rintro _ out ⟨s, arrived⟩ e ⟨s', arrived'⟩ o ⟨⟨acts, hpath, -, hqueue⟩, hheld⟩ hstep
    obtain ⟨hs, rfl⟩ := withGhost_eq_some.mp hstep
    obtain ⟨acts', hstepped, hheld', hwaits⟩ := handle_path hheld hs
    have hall := hpath.append hstepped
    refine ⟨⟨acts ++ acts', hall, hall.inTime, ?_⟩, hheld'⟩
    have hstepQueue := hstepped.delQ
    rw [hwaits] at hstepQueue
    rw [List.flatMap_append, List.append_assoc, hstepQueue, ← List.append_assoc]
    exact congrArg (· ++ s.arrival e) hqueue

/-- A time in 2023. -/
def morning : ℕ := 1700000000000000000

/-- One of our bids, or its cancel, decided at 1000 that morning. -/
def ourBid (cancel : Bool) : SimPl where
  side := .buy
  exOrderId := 0
  orderRef := ⟨xSIM, 1⟩
  mev := if cancel then .mod else .add
  action := if cancel then .cancd else .none
  sz := 3
  dispSz := if cancel then 0 else 3
  px := 9
  tim := 0
  sendTim := 0
  mkt := xSIM
  eoe := false
  recovery := false
  ts0 := morning + 1000
  txtimEpoch := 0
  sendtimEpoch := 0
  ot := .limit
  owner := 7
  mev_eq := by cases cancel <;> decide

/-- A record of the exchange, then our order and its cancel. -/
def delayRecords : List (Event ℤ) :=
  [bidOfFive (morning + 300) 0 1 10 false, .sim (ourBid false) (some 7),
    .sim (ourBid true) (some 7)]

/-- A New (0), Change (1) or Delete (2) of a bid. -/
def lateBid (tim action oid : ℕ) : Mbo ℤ where
  venue := 1
  transactTime := tim
  sendingTime := tim
  orderUpdateAction := action
  securityID := 1
  orderID := oid
  pxd := 8
  displayQty := 5
  displayQty_lt := by decide
  side := '0'
  endOfEvent := true
  recovery := false

end KasparHft.OB
