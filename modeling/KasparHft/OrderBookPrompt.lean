import KasparHft.OrderBookDelay

/-!
# A slow cancel ahead of a fast order

A cancel may take longer to the engine than an order, and both wait in the one queue, of which
the loop of `process_q` takes the head as long as it is due.  An order behind a cancel that is
still on its way stays, however long ago it arrived.

That is the only way an order or a cancel of ours is late.
-/

namespace KasparHft.OB

open Machine

variable {Px : Type} {cfg : FeedCfg} {ops : PriceOps Px} {s s' : State Px}

/-! ### Times of arrival -/

/-- What is sent no later arrives no later, unless it is a cancel and the other is not. -/
theorem arriveTime_mono {p p' : Pl} (hsent : p.ts0 ≤ p'.ts0)
    (hkind : ¬ (p.action = .cancd ∧ p'.action ≠ .cancd)) :
    arriveTime cfg p ≤ arriveTime cfg p' := by
  have hle := cfg.delay_le
  unfold arriveTime
  dsimp only
  by_cases hcancel : p'.action = .cancd
  · by_cases hsame : cfg.cancelDelay < 0
    · rw [if_neg fun h => absurd h.2 (not_le.mpr hsame),
        if_neg fun h => absurd h.2 (not_le.mpr hsame)]
      omega
    · rw [if_pos (⟨hcancel, not_lt.mp hsame⟩ : p'.action = .cancd ∧ 0 ≤ cfg.cancelDelay)]
      split <;> omega
  · have horder : p.action ≠ .cancd := fun hp => hkind ⟨hp, hcancel⟩
    rw [if_neg fun h => horder h.1, if_neg fun h => hcancel h.1]
    omega

/-! ### The queue -/

/-- The queue is in the order in which it was sent. -/
def InSentOrder (q : List (SimPl × Option ℕ)) : Prop :=
  q.Pairwise fun x y => x.1.ts0 ≤ y.1.ts0

/-- At `tim`, no order that has arrived stands behind a cancel that has not. -/
def NoOrderHeld (cfg : FeedCfg) (tim : ℕ) (q : List (SimPl × Option ℕ)) : Prop :=
  q.Pairwise fun x y => x.1.action = .cancd → y.1.action ≠ .cancd →
    tim ≤ arriveTime cfg x.1.toPl → tim ≤ arriveTime cfg y.1.toPl

/-- Nothing that waits has arrived before `tim`. -/
def NoneDue (cfg : FeedCfg) (tim : ℕ) (q : List (SimPl × Option ℕ)) : Prop :=
  ∀ x ∈ q, tim ≤ arriveTime cfg x.1.toPl

/-- **What the loop leaves.**  It takes what is due from the head, so nothing due is left
    exactly if no order that is due stood behind a cancel that is not. -/
theorem noneDue_iff {tim : ℕ} {sims q : List (SimPl × Option ℕ)}
    (hsent : InSentOrder (sims ++ q)) (hdue : ∀ x ∈ sims, arriveTime cfg x.1.toPl < tim)
    (hhead : ∀ x ∈ q.head?, tim ≤ arriveTime cfg x.1.toPl) :
    NoneDue cfg tim q ↔ NoOrderHeld cfg tim (sims ++ q) := by
  constructor
  · intro hnone
    -- what stands ahead is due itself, or what stands behind is left and so is not
    refine List.pairwise_append.mpr ⟨?_, ?_, ?_⟩
    · refine List.pairwise_of_forall_mem_list ?_
      exact fun x hx y _ _ _ hnot => absurd (hdue x hx) (not_lt.mpr hnot)
    · refine List.pairwise_of_forall_mem_list ?_
      exact fun x _ y hy _ _ _ => hnone y hy
    · exact fun x _ y hy _ _ _ => hnone y hy
  · intro hheld
    rcases q with _ | ⟨x, q⟩
    · exact fun x hx => (List.not_mem_nil hx).elim
    have hx : tim ≤ arriveTime cfg x.1.toPl := hhead x rfl
    obtain ⟨hsentx, -⟩ := List.pairwise_cons.mp (List.pairwise_append.mp hsent).2.1
    obtain ⟨hheldx, -⟩ := List.pairwise_cons.mp (List.pairwise_append.mp hheld).2.1
    refine List.forall_mem_cons.mpr ⟨hx, ?_⟩
    intro y hy
    by_cases hkind : x.1.action = .cancd ∧ y.1.action ≠ .cancd
    · exact hheldx y hy hkind.1 hkind.2 hx
    · exact hx.trans (arriveTime_mono (hsentx y hy) hkind)

/-! ### What waits at a record -/

/-- What waits when the acts are done: what has come and has not been let through. -/
def waiting (acts : List Act) : List (SimPl × Option ℕ) :=
  (acts.flatMap Act.waits).drop (acts.flatMap Act.released).length

theorem Path.delQ_waiting {acts : List Act} {o : List Sent}
    (h : Path cfg (State.new Px cfg) acts o s) :
    s.delQ = waiting acts := by
  have hqueue := h.delQ
  change acts.flatMap Act.released ++ s.delQ = [] ++ _ at hqueue
  unfold waiting
  rw [List.nil_append] at hqueue
  rw [← hqueue, List.drop_left]

theorem waiting_sublist (acts : List Act) : (waiting acts).Sublist (acts.flatMap Act.waits) :=
  List.drop_sublist _ _

/-- A path up to an act, and the act. -/
theorem Path.split {before after : List Act} {a : Act} {o : List Sent}
    (h : Path cfg s (before ++ a :: after) o s') :
    ∃ s₁ s₂ o₁ o₂, Path cfg s before o₁ s₁ ∧ Does cfg s₁ a o₂ s₂ := by
  generalize hacts : before ++ a :: after = acts at h
  induction h generalizing before with
  | nil hquiet => exact absurd hacts (List.append_ne_nil_of_right_ne_nil _ (List.cons_ne_nil _ _))
  | cons hquiet hact hrest ih =>
      rcases before with _ | ⟨b, before⟩
      · cases hacts
        exact ⟨_, _, [], _, .nil hquiet, hact⟩
      · cases hacts
        obtain ⟨s₁, s₂, o₁, o₂, hbefore, ha⟩ := ih rfl
        exact ⟨s₁, s₂, _, o₂, .cons hquiet hact hbefore, ha⟩

/-- Whenever `process_q` applies the payload of a record, all of ours that has arrived before
    the time of the record has been applied. -/
def Prompt (cfg : FeedCfg) (acts : List Act) : Prop :=
  ∀ before sims pl after, acts = before ++ .round sims pl :: after →
    NoneDue cfg pl.tim (waiting (before ++ [.round sims pl]))

/-- Whenever `process_q` is handed the payload of a record, no order of ours that has arrived
    stands behind a cancel that has not. -/
def Unblocked (cfg : FeedCfg) (acts : List Act) : Prop :=
  ∀ before sims pl after, acts = before ++ .round sims pl :: after →
    NoOrderHeld cfg pl.tim (waiting before)

/-- One round, from what waits before it. -/
theorem Path.round_noneDue_iff {before after : List Act} {sims : List (SimPl × Option ℕ)} {pl : Pl}
    {o : List Sent} (h : Path cfg (State.new Px cfg) (before ++ .round sims pl :: after) o s)
    (hsent : InSentOrder (waiting before)) :
    NoneDue cfg pl.tim (waiting (before ++ [.round sims pl])) ↔
      NoOrderHeld cfg pl.tim (waiting before) := by
  obtain ⟨s₁, s₂, o₁, o₂, hbefore, hround⟩ := h.split
  have hafter : s₂.delQ = waiting (before ++ [.round sims pl]) :=
    (hbefore.append (.one hround)).delQ_waiting
  have hqueue := hround.delQ
  rw [hafter, hbefore.delQ_waiting] at hqueue
  change sims ++ _ = _ ++ [] at hqueue
  rw [List.append_nil] at hqueue
  rw [← hqueue] at hsent ⊢
  cases hround with
  | round hmev hreal hpops hhead happly =>
      apply noneDue_iff hsent hpops.due
      rw [← hafter, processMarketData_delQ happly]
      exact hhead

/-! ### Runs -/

/-- When one of our orders with a market time is sent. -/
def sentAt : Event Px → List ℕ
  | .sim p _ => if p.ts0 = 0 then [] else [p.ts0]
  | _ => []

theorem arrival_ts0 (s : State Px) (e : Event Px) :
    (s.arrival e).map (fun x => x.1.ts0) = sentAt e := by
  cases e with
  | sim p sender =>
      unfold State.arrival sentAt
      dsimp only
      split <;> rfl
  | _ => rfl

/-- The acts of a message; a book record that gets as far as `process_q` has its own round
    there. -/
structure Acts (cfg : FeedCfg) (ops : PriceOps Px) (s : State Px) (e : Event Px)
    (acts : List Act) (o : List Sent) (s' : State Px) : Prop where
  path : Path cfg s acts o s'
  waits : acts.flatMap Act.waits = s.arrival e
  round : ∀ m, e = .mbo m → Reaches cfg ops m → (s.gate m).2 = true → Concerns ops s m →
    HasRound m acts

theorem handle_acts {e : Event Px} {o : List Sent} (hs : Held cfg ops s)
    (h : handle cfg ops s e = some (s', o)) :
    (∃ acts, Acts cfg ops s e acts o s') ∧ Held cfg ops s' := by
  obtain ⟨acts, hpath, hheld, hwaits⟩ := handle_path hs h
  refine ⟨?_, hheld⟩
  by_cases hround : ∃ m, e = .mbo m ∧ Reaches cfg ops m ∧ (s.gate m).2 = true ∧ Concerns ops s m
  · obtain ⟨m, rfl, hreaches, hpass, hconcerns⟩ := hround
    obtain ⟨acts, hpath, hround, hkinds⟩ := (mbo_drained hs hreaches hpass hconcerns h).round
    refine ⟨acts, hpath, ?_, ?_⟩
    · refine List.flatMap_eq_nil_iff.mpr ?_
      intro a ha
      rcases hkinds a ha with hkind | hkind | rfl
      · cases a <;> first | rfl | exact hkind.elim
      · cases a <;> first | rfl | exact hkind.elim
      · rfl
    · rintro m' heq - - -
      cases heq
      exact hround
  · refine ⟨acts, hpath, hwaits, ?_⟩
    intro m heq hreaches hpass hconcerns
    exact absurd ⟨m, heq, hreaches, hpass, hconcerns⟩ hround

/-- The acts of a run, message by message. -/
inductive RunActs (cfg : FeedCfg) (ops : PriceOps Px) :
    State Px → List (Event Px) → List Act → List Sent → State Px → Prop
  | nil (s : State Px) : RunActs cfg ops s [] [] [] s
  | cons {s s₁ s' : State Px} {e : Event Px} {es : List (Event Px)} {acts acts' : List Act}
      {o o' : List Sent} (hstep : handle cfg ops s e = some (s₁, o))
      (hacts : Acts cfg ops s e acts o s₁) (hrest : RunActs cfg ops s₁ es acts' o' s') :
      RunActs cfg ops s (e :: es) (acts ++ acts') (o ++ o') s'

theorem run_acts {es : List (Event Px)} {out : List Sent} (hs : Held cfg ops s)
    (h : run (handle cfg ops) s es = some (s', out)) :
    ∃ acts, RunActs cfg ops s es acts out s' := by
  induction es generalizing s out with
  | nil =>
      cases h
      exact ⟨[], .nil _⟩
  | cons e es ih =>
      obtain ⟨s₁, o, o', hstep, hrest, rfl⟩ := run_cons.mp h
      obtain ⟨⟨acts, hacts⟩, hs₁⟩ := handle_acts hs hstep
      obtain ⟨acts', hacts'⟩ := ih hs₁ hrest
      exact ⟨acts ++ acts', .cons hstep hacts hacts'⟩

theorem RunActs.path {es : List (Event Px)} {acts : List Act} {out : List Sent}
    (h : RunActs cfg ops s es acts out s') : Path cfg s acts out s' := by
  induction h with
  | nil s => exact .nil (Quiet.refl s)
  | cons hstep hacts _ ih => exact hacts.path.append ih

theorem RunActs.sentAt {es : List (Event Px)} {acts : List Act} {out : List Sent}
    (h : RunActs cfg ops s es acts out s') :
    (acts.flatMap Act.waits).map (fun x => x.1.ts0) = es.flatMap sentAt := by
  induction h with
  | nil s => rfl
  | cons hstep hacts _ ih =>
      rw [List.flatMap_append, List.map_append, ih, hacts.waits, arrival_ts0, List.flatMap_cons]

theorem RunActs.run {es : List (Event Px)} {acts : List Act} {out : List Sent}
    (h : RunActs cfg ops s es acts out s') : run (handle cfg ops) s es = some (s', out) := by
  induction h with
  | nil s => rfl
  | cons hstep _ _ ih => exact run_cons.mpr ⟨_, _, _, hstep, ih, rfl⟩

/-- What waits at any point of a run is in the order in which it was sent. -/
theorem RunActs.inSentOrder {es : List (Event Px)} {acts before after : List Act}
    {out : List Sent} (h : RunActs cfg ops s es acts out s')
    (hsent : (es.flatMap OB.sentAt).Pairwise (· ≤ ·)) (hacts : acts = before ++ after) :
    InSentOrder (waiting before) := by
  rw [← h.sentAt, List.pairwise_map, hacts, List.flatMap_append] at hsent
  exact (List.pairwise_append.mp hsent).1.sublist (waiting_sublist before)

theorem RunActs.prompt_iff_unblocked {es : List (Event Px)} {acts : List Act} {out : List Sent}
    (h : RunActs cfg ops (State.new Px cfg) es acts out s)
    (hsent : (es.flatMap OB.sentAt).Pairwise (· ≤ ·)) : Prompt cfg acts ↔ Unblocked cfg acts := by
  have hone : ∀ before sims pl after, acts = before ++ .round sims pl :: after →
      (NoneDue cfg pl.tim (waiting (before ++ [.round sims pl])) ↔
        NoOrderHeld cfg pl.tim (waiting before)) := by
    intro before sims pl after heq
    have hpath := h.path
    rw [heq] at hpath
    exact hpath.round_noneDue_iff (h.inSentOrder hsent heq)
  constructor
  · intro hprompt before sims pl after heq
    exact (hone before sims pl after heq).mp (hprompt before sims pl after heq)
  · intro hfree before sims pl after heq
    exact (hone before sims pl after heq).mpr (hfree before sims pl after heq)

theorem RunActs.concat {es : List (Event Px)} {e : Event Px} {acts : List Act} {out : List Sent}
    (h : RunActs cfg ops s (es ++ [e]) acts out s') :
    ∃ s₁ acts₁ acts₂ o₁ o₂, RunActs cfg ops s es acts₁ o₁ s₁ ∧ Acts cfg ops s₁ e acts₂ o₂ s' ∧
      acts = acts₁ ++ acts₂ := by
  generalize hes : es ++ [e] = es' at h
  induction h generalizing es with
  | nil s => exact absurd hes (List.append_ne_nil_of_right_ne_nil _ (List.cons_ne_nil _ _))
  | cons hstep hacts hrest ih =>
      rcases es with _ | ⟨e', es⟩
      · cases hes
        cases hrest
        exact ⟨_, [], _, [], _, .nil _, hacts, List.append_nil _⟩
      · cases hes
        obtain ⟨s₁, acts₁, acts₂, o₁, o₂, hfirst, hlast, rfl⟩ := ih rfl
        exact ⟨s₁, _, acts₂, _, o₂, .cons hstep hacts hfirst, hlast, (List.append_assoc _ _ _).symm⟩

/-- After acts that put nothing in the queue, what waits waited before. -/
theorem waiting_append {acts acts' : List Act} (h : acts'.flatMap Act.waits = []) :
    (waiting (acts ++ acts')).Sublist (waiting acts) := by
  unfold waiting
  have hwaits : (acts ++ acts').flatMap Act.waits = acts.flatMap Act.waits := by
    rw [List.flatMap_append, h, List.append_nil]
  rw [hwaits, List.flatMap_append, List.length_append, ← List.drop_drop]
  exact List.drop_sublist _ _

/-- A prompt run leaves nothing that is due at a record that got as far as `process_q`. -/
theorem Prompt.noneDue {es : List (Event Px)} {m : Mbo Px} {acts : List Act} {out out' : List Sent}
    {s₁ : State Px} (hprompt : Prompt cfg acts)
    (hacts : RunActs cfg ops (State.new Px cfg) (es ++ [.mbo m]) acts out s)
    (hrun : run (handle cfg ops) (State.new Px cfg) es = some (s₁, out'))
    (hreaches : Reaches cfg ops m) (hpass : (s₁.gate m).2 = true) (hconcerns : Concerns ops s₁ m) :
    NoneDue cfg m.transactTime s.delQ := by
  rw [hacts.path.delQ_waiting]
  obtain ⟨s₂, acts₁, acts₂, o₁, o₂, hfirst, hlast, rfl⟩ := hacts.concat
  have hsame := hfirst.run.symm.trans hrun
  cases hsame
  obtain ⟨sims, pl, hmem, htim⟩ := hlast.round m rfl hreaches hpass hconcerns
  obtain ⟨before, after, rfl⟩ := List.append_of_mem hmem
  have hround := hprompt (acts₁ ++ before) sims pl after (by rw [List.append_assoc])
  have hwaits : after.flatMap Act.waits = [] := by
    have hall := hlast.waits
    rw [List.flatMap_append, List.flatMap_cons] at hall
    exact (List.append_eq_nil_iff.mp (List.append_eq_nil_iff.mp hall).2).2
  intro x hx
  rw [← htim]
  apply hround x
  refine (waiting_append hwaits).subset ?_
  rwa [List.append_assoc, List.append_assoc, List.singleton_append]

/-- A simulated asset where a cancel takes a millisecond, and an order 40 microseconds. -/
def slowCancelCfg : FeedCfg :=
  { simulCfg with cancelDelay := 1000, delay_le := .inr (by decide) }

/-- An order of ours joins the book; its cancel is sent, and right after it another order. -/
def slowCancelRecords : List (Event ℤ) :=
  [bidOfFive (morning + 300) 0 1 10 false, .sim (ourBid false) (some 7),
    bidOfFive (morning + 50000) 0 2 10 false,
    .sim { ourBid true with ts0 := morning + 60000 } (some 7),
    .sim { ourBid false with orderRef := ⟨xSIM, 2⟩, ts0 := morning + 61000 } (some 7)]

/-- The record that comes after the second order has arrived. -/
def afterSecond : Mbo ℤ := lateBid (morning + 110000) 0 3

end KasparHft.OB
