import KasparHft.OrderBookEffect

/-!
# What a message makes the book do

Every message comes down to the same few acts: payloads of records go through `process_q`,
which lets our waiting orders through first; a payload is processed at once; the book is
cleared; one of our orders joins the queue.  Between them only members change that no
payload reads: the map, the slate, the id counter, the clock.

`Path` lists the acts of a message, in order, with what they send.  The results about our
orders' delay, about the recovery gate and about what subscribers are sent are read off it.
-/

namespace KasparHft.OB

open AssocMap FillSlate Machine

variable {Px : Type} {cfg : FeedCfg} {ops : PriceOps Px} {s s' : State Px}

/-! ### Acts -/

/-- What a message makes the book do. -/
inductive Act where
  /-- `process_q` lets `sims` through, then the record's own payload. -/
  | round (sims : List (SimPl × Option ℕ)) (pl : Pl)
  /-- A payload without a market time, which does not wait. -/
  | direct (pl : Pl) (sender : Option ℕ)
  | clear
  | wait (p : SimPl) (sender : Option ℕ)
  /-- The gate, the first record, the trading status. -/
  | stamp
  | subscribe

/-- Nothing happens but to the map, the slate, the id counter, the clock and the recovery
    flag. -/
structure Quiet (s s' : State Px) : Prop where
  book : s'.book = s.book
  lastTxTim : s'.lastTxTim = s.lastTxTim
  lastRecoveryTxTim : s'.lastRecoveryTxTim = s.lastRecoveryTxTim
  firstRecordSeen : s'.firstRecordSeen = s.firstRecordSeen
  lastGoodPayload : s'.lastGoodPayload = s.lastGoodPayload
  delQ : s'.delQ = s.delQ
  pubQ : s'.pubQ = s.pubQ
  hiprioDatasubs : s'.hiprioDatasubs = s.hiprioDatasubs
  lowprioDatasubs : s'.lowprioDatasubs = s.lowprioDatasubs
  bbbosubs : s'.bbbosubs = s.bbbosubs

theorem Quiet.refl (s : State Px) : Quiet s s := ⟨rfl, rfl, rfl, rfl, rfl, rfl, rfl, rfl, rfl, rfl⟩

theorem quiet_clock (s : State Px) (t t' : ℕ) :
    Quiet s { s with txtimEpoch := t, sendtimEpoch := t' } :=
  ⟨rfl, rfl, rfl, rfl, rfl, rfl, rfl, rfl, rfl, rfl⟩

theorem Quiet.trans {s₁ : State Px} (h : Quiet s s₁) (h' : Quiet s₁ s') : Quiet s s' where
  book := h'.book.trans h.book
  lastTxTim := h'.lastTxTim.trans h.lastTxTim
  lastRecoveryTxTim := h'.lastRecoveryTxTim.trans h.lastRecoveryTxTim
  firstRecordSeen := h'.firstRecordSeen.trans h.firstRecordSeen
  lastGoodPayload := h'.lastGoodPayload.trans h.lastGoodPayload
  delQ := h'.delQ.trans h.delQ
  pubQ := h'.pubQ.trans h.pubQ
  hiprioDatasubs := h'.hiprioDatasubs.trans h.hiprioDatasubs
  lowprioDatasubs := h'.lowprioDatasubs.trans h.lowprioDatasubs
  bbbosubs := h'.bbbosubs.trans h.bbbosubs

/-- `sims` are let through, from the head of the queue, each once it is due at `tim`. -/
inductive Pops (cfg : FeedCfg) (tim : ℕ) :
    State Px → List (SimPl × Option ℕ) → List Sent → State Px → Prop
  | nil (s : State Px) : Pops cfg tim s [] [] s
  | cons {s s₁ s' : State Px} {p : SimPl} {sender : Option ℕ} {q sims : List (SimPl × Option ℕ)}
      {o o' : List Sent} (hhead : s.delQ = (p, sender) :: q)
      (hdue : arriveTime cfg p.toPl < tim)
      (happly : s.processMarketData cfg p.toPl sender = some (s₁, o))
      (hrest : Pops cfg tim { s₁ with delQ := q } sims o' s') :
      Pops cfg tim s ((p, sender) :: sims) (o ++ o') s'

/-- One act. -/
inductive Does (cfg : FeedCfg) : State Px → Act → List Sent → State Px → Prop
  | round {s s₁ s' : State Px} {sims : List (SimPl × Option ℕ)} {pl : Pl} {o o' : List Sent}
      (hmev : pl.mev = .add ∨ pl.mev = .mod) (hreal : pl.isSim = false)
      (hpops : Pops cfg pl.tim s sims o s₁)
      (hhead : ∀ x ∈ s₁.delQ.head?, pl.tim ≤ arriveTime cfg x.1.toPl)
      (happly : s₁.processMarketData cfg pl none = some (s', o')) :
      Does cfg s (.round sims pl) (o ++ o') s'
  | direct {s s' : State Px} {pl : Pl} {sender : Option ℕ} {o : List Sent}
      (huntimed : pl.ts0 = 0) (happly : s.processMarketData cfg pl sender = some (s', o)) :
      Does cfg s (.direct pl sender) o s'
  | clear {s s' : State Px} {o : List Sent} (hclear : s.clear cfg = some (s', o)) :
      Does cfg s .clear o s'
  | wait (s : State Px) (p : SimPl) (sender : Option ℕ) :
      Does cfg s (.wait p sender) [] { s with delQ := s.delQ ++ [(p, sender)] }
  | stamp {s s' : State Px} (hbook : s'.book = s.book)
      (hgood : s'.lastGoodPayload = s.lastGoodPayload) (hdel : s'.delQ = s.delQ)
      (hpub : s'.pubQ = s.pubQ) (hhi : s'.hiprioDatasubs = s.hiprioDatasubs)
      (hlo : s'.lowprioDatasubs = s.lowprioDatasubs) (hbbbo : s'.bbbosubs = s.bbbosubs) :
      Does cfg s .stamp [] s'
  | subscribe {s s' : State Px} (hgood : s'.lastGoodPayload = s.lastGoodPayload)
      (hdel : s'.delQ = s.delQ) (hpub : s'.pubQ = s.pubQ)
      (hhi : ∀ a ∈ s.hiprioDatasubs, a ∈ s'.hiprioDatasubs)
      (hlo : ∀ a ∈ s.lowprioDatasubs, a ∈ s'.lowprioDatasubs) :
      Does cfg s .subscribe [] s'

/-- Acts in order, with what they send. -/
inductive Path (cfg : FeedCfg) : State Px → List Act → List Sent → State Px → Prop
  | nil {s s' : State Px} (hquiet : Quiet s s') : Path cfg s [] [] s'
  | cons {s s₁ s₂ s' : State Px} {a : Act} {acts : List Act} {o o' : List Sent}
      (hquiet : Quiet s s₁) (hact : Does cfg s₁ a o s₂) (hrest : Path cfg s₂ acts o' s') :
      Path cfg s (a :: acts) (o ++ o') s'

theorem Path.of_quiet {s₁ : State Px} {acts : List Act} {o : List Sent} (hquiet : Quiet s s₁)
    (h : Path cfg s₁ acts o s') : Path cfg s acts o s' := by
  cases h with
  | nil hquiet' => exact .nil (hquiet.trans hquiet')
  | cons hquiet' hact hrest => exact .cons (hquiet.trans hquiet') hact hrest

theorem Path.append {s₁ : State Px} {acts acts' : List Act} {o o' : List Sent}
    (h : Path cfg s acts o s₁) (h' : Path cfg s₁ acts' o' s') :
    Path cfg s (acts ++ acts') (o ++ o') s' := by
  induction h with
  | nil hquiet => exact h'.of_quiet hquiet
  | cons hquiet hact _ ih =>
      rw [List.append_assoc]
      exact .cons hquiet hact (ih h')

theorem Path.then_quiet {s₁ : State Px} {acts : List Act} {o : List Sent}
    (h : Path cfg s acts o s₁) (hquiet : Quiet s₁ s') : Path cfg s acts o s' := by
  have happ := h.append (.nil hquiet)
  rwa [List.append_nil, List.append_nil] at happ

theorem Path.one {a : Act} {o : List Sent} (h : Does cfg s a o s') : Path cfg s [a] o s' := by
  have hpath := Path.cons (Quiet.refl s) h (.nil (Quiet.refl s'))
  rwa [List.append_nil] at hpath

/-! ### The queue of our orders -/

/-- The state with another queue. -/
def State.withDelQ (s : State Px) (q : List (SimPl × Option ℕ)) : State Px := { s with delQ := q }

theorem withDelQ_self {q : List (SimPl × Option ℕ)} (h : s.delQ = q) : s.withDelQ q = s := by
  subst h
  rfl

theorem handleEoburst_withDelQ (s : State Px) (q : List (SimPl × Option ℕ)) (pl : Pl) :
    (s.withDelQ q).handleEoburst cfg pl =
      ((s.handleEoburst cfg pl).1.withDelQ q, (s.handleEoburst cfg pl).2) := by
  unfold State.handleEoburst State.withDelQ
  dsimp only
  split <;> rfl

theorem processAddOrMod_withDelQ (s : State Px) (q : List (SimPl × Option ℕ)) (pl : Pl)
    (sender : Option ℕ) :
    (s.withDelQ q).processAddOrMod cfg pl sender =
      (s.processAddOrMod cfg pl sender).map fun r => (r.1.withDelQ q, r.2) := by
  unfold State.processAddOrMod
  refine map_ite_congr rfl (map_ite_congr (map_ite_congr rfl ?_) ?_)
  · rw [Option.map_map]
    apply Option.map_congr
    intro r _
    generalize htold : State.tell cfg { s with book := r.1 } r.2 = told
    have htold' : State.tell cfg { s.withDelQ q with book := r.1 } r.2 =
        (told.1.withDelQ q, told.2) := by
      rw [← htold]
      rfl
    rw [htold']
    dsimp only
    rw [handleEoburst_withDelQ, Function.comp_apply, htold]
  · refine map_ite_congr ?_ (map_ite_congr ?_ (map_ite_congr rfl rfl))
    · exact congrArg some (handleEoburst_withDelQ s q pl)
    · unfold State.clear
      rw [Option.map_map]
      rfl

theorem checkCross_withDelQ (s : State Px) (q : List (SimPl × Option ℕ)) (pl : Pl) :
    (s.withDelQ q).checkCross cfg pl = (s.checkCross cfg pl).map fun s => s.withDelQ q := by
  have hlater : (if pl.isSim = false ∧ (s.withDelQ q).xcheckTx < pl.tim then
        { s.withDelQ q with xcheckTx := pl.tim } else s.withDelQ q) =
      (if pl.isSim = false ∧ s.xcheckTx < pl.tim then
        { s with xcheckTx := pl.tim } else s).withDelQ q := by
    change (if pl.isSim = false ∧ s.xcheckTx < pl.tim then _ else _) = _
    split <;> rfl
  unfold State.checkCross
  dsimp only
  rw [hlater]
  exact map_ite_congr (map_ite_congr rfl rfl) rfl

theorem keepPoint_withDelQ (s : State Px) (q : List (SimPl × Option ℕ)) (pl : Pl) :
    (s.withDelQ q).keepPoint cfg pl =
      (s.keepPoint cfg pl).map fun r => (r.1.withDelQ q, r.2) := by
  unfold State.keepPoint
  exact map_ite_congr rfl (map_ite_congr rfl (map_ite_congr rfl rfl))

theorem andThen_map {r r' : Option (State Px × List Sent)}
    {f f' : State Px → Option (State Px × List Sent)} {g : State Px → State Px}
    (hr : r' = r.map fun r => (g r.1, r.2))
    (hf : ∀ s, f' (g s) = (f s).map fun r => (g r.1, r.2)) :
    andThen r' f' = (andThen r f).map fun r => (g r.1, r.2) := by
  rcases r with _ | ⟨s₁, o₁⟩
  · rw [hr]
    rfl
  · rw [hr]
    change ((f' (g s₁)).map fun r' => (r'.1, o₁ ++ r'.2)) =
      ((f s₁).map fun r' => (r'.1, o₁ ++ r'.2)).map fun r => (g r.1, r.2)
    rw [hf, Option.map_map, Option.map_map]
    rfl

/-- No payload reads the queue of our orders. -/
theorem processMarketData_withDelQ (cfg : FeedCfg) (s : State Px)
    (q : List (SimPl × Option ℕ)) (pl : Pl) (sender : Option ℕ) :
    (s.withDelQ q).processMarketData cfg pl sender =
      (s.processMarketData cfg pl sender).map fun r => (r.1.withDelQ q, r.2) := by
  have hdrain : (if pl.txtimEpoch ≠ 0 ∧ pl.isSim = false then
        State.drainPubQ { s.withDelQ q with lastProcessedTs := pl.txtimEpoch } pl.txtimEpoch
      else (s.withDelQ q, [])) =
      ((if pl.txtimEpoch ≠ 0 ∧ pl.isSim = false then
          State.drainPubQ { s with lastProcessedTs := pl.txtimEpoch } pl.txtimEpoch
        else (s, [])).1.withDelQ q,
      (if pl.txtimEpoch ≠ 0 ∧ pl.isSim = false then
          State.drainPubQ { s with lastProcessedTs := pl.txtimEpoch } pl.txtimEpoch
        else (s, [])).2) := by
    split <;> rfl
  unfold State.processMarketData
  refine map_ite_congr rfl ?_
  dsimp only
  rw [hdrain]
  generalize (if pl.txtimEpoch ≠ 0 ∧ pl.isSim = false then
    State.drainPubQ { s with lastProcessedTs := pl.txtimEpoch } pl.txtimEpoch
    else (s, [])) = drained
  apply andThen_map (g := fun s => s.withDelQ q)
  · apply andThen_map (g := fun s => s.withDelQ q)
    · rw [checkCross_withDelQ, Option.map_map, Option.map_map]
      rfl
    · exact fun s => processAddOrMod_withDelQ s q pl sender
  · exact fun s => keepPoint_withDelQ s q pl

theorem processMarketData_delQ {pl : Pl} {sender : Option ℕ} {o : List Sent}
    (h : s.processMarketData cfg pl sender = some (s', o)) : s'.delQ = s.delQ := by
  have hset := processMarketData_withDelQ cfg s s.delQ pl sender
  rw [withDelQ_self rfl, h] at hset
  have hstate : s' = s'.withDelQ s.delQ := congrArg Prod.fst (Option.some.inj hset)
  rw [hstate]
  rfl

theorem popDelQ_withDelQ (s : State Px) (q q' : List (SimPl × Option ℕ)) (tim : ℕ) :
    popDelQ cfg tim q (s.withDelQ q') = popDelQ cfg tim q s := by
  induction q generalizing s with
  | nil => rfl
  | cons p q ih =>
      obtain ⟨p, sender⟩ := p
      unfold popDelQ
      split
      · rfl
      · split
        · rw [processMarketData_withDelQ]
          rcases s.processMarketData cfg p.toPl sender with _ | ⟨s₁, o₁⟩
          · rfl
          · change (popDelQ cfg tim q (s₁.withDelQ q')).map _ = (popDelQ cfg tim q s₁).map _
            rw [ih]
        · rfl

/-- **The loop of `process_q`** takes from the head what is due, and stops at what is not. -/
theorem popDelQ_pops {tim : ℕ} {q : List (SimPl × Option ℕ)} {o : List Sent} (hq : s.delQ = q)
    (h : popDelQ cfg tim q s = some (s', o)) :
    ∃ sims, Pops cfg tim s sims o s' ∧
      ∀ x ∈ s'.delQ.head?, tim ≤ arriveTime cfg x.1.toPl := by
  induction q generalizing s o with
  | nil =>
      have hsame : s.withDelQ [] = s := withDelQ_self hq
      have heq : some (s.withDelQ [], []) = some (s', o) := h
      rw [hsame] at heq
      cases heq
      refine ⟨[], .nil s', ?_⟩
      rw [hq]
      intro x hx
      exact (Option.not_mem_none x hx).elim
  | cons p q ih =>
      obtain ⟨p, sender⟩ := p
      unfold popDelQ at h
      split at h
      · cases h
      · split at h
        next hdue =>
          obtain ⟨s₁, o₁, o₂, happly, hrest, rfl⟩ := andThen_some h
          rw [← popDelQ_withDelQ s₁ q q] at hrest
          obtain ⟨sims, hpops, hhead⟩ := ih (s := s₁.withDelQ q) rfl hrest
          exact ⟨_, .cons hq hdue happly hpops, hhead⟩
        next hnot =>
          have hsame : s.withDelQ ((p, sender) :: q) = s := withDelQ_self hq
          have heq : some (s.withDelQ ((p, sender) :: q), []) = some (s', o) := h
          rw [hsame] at heq
          cases heq
          refine ⟨[], .nil s', ?_⟩
          rw [hq]
          rintro x hx
          cases hx
          exact not_lt.mp hnot

/-! ### Records -/

/-- A payload of a record that `process_q` is handed. -/
def Act.IsRound : Act → Prop
  | .round _ _ => True
  | _ => False

/-- The payload of a record that an act puts through. -/
def Act.pls : Act → List Pl
  | .round _ pl => [pl]
  | _ => []

/-- Payloads of records go through, and nothing else is done. -/
def Rounds (cfg : FeedCfg) (s : State Px) (acts : List Act) (o : List Sent) (s' : State Px) :
    Prop :=
  Path cfg s acts o s' ∧ ∀ a ∈ acts, a.IsRound

theorem Rounds.nil (s : State Px) : Rounds cfg s [] [] s :=
  ⟨.nil (Quiet.refl s), fun _ ha => (List.not_mem_nil ha).elim⟩

theorem Rounds.of_quiet {s₁ : State Px} {acts : List Act} {o : List Sent} (hquiet : Quiet s s₁)
    (h : Rounds cfg s₁ acts o s') : Rounds cfg s acts o s' :=
  ⟨h.1.of_quiet hquiet, h.2⟩

theorem Rounds.then_quiet {s₁ : State Px} {acts : List Act} {o : List Sent}
    (h : Rounds cfg s acts o s₁) (hquiet : Quiet s₁ s') : Rounds cfg s acts o s' :=
  ⟨h.1.then_quiet hquiet, h.2⟩

theorem Rounds.append {s₁ : State Px} {acts acts' : List Act} {o o' : List Sent}
    (h : Rounds cfg s acts o s₁) (h' : Rounds cfg s₁ acts' o' s') :
    Rounds cfg s (acts ++ acts') (o ++ o') s' := by
  refine ⟨h.1.append h'.1, ?_⟩
  intro a ha
  rcases List.mem_append.mp ha with ha | ha
  · exact h.2 a ha
  · exact h'.2 a ha

/-- The map and the slate stay. -/
def SameHeld (s s' : State Px) : Prop := s'.ordermap = s.ordermap ∧ s'.execSlate = s.execSlate

theorem SameHeld.trans {s₁ : State Px} (h : SameHeld s s₁) (h' : SameHeld s₁ s') :
    SameHeld s s' :=
  ⟨h'.1.trans h.1, h'.2.trans h.2⟩

theorem processMarketData_sameHeld {pl : Pl} {sender : Option ℕ} {o : List Sent}
    (hmev : pl.mev = .add ∨ pl.mev = .mod)
    (h : s.processMarketData cfg pl sender = some (s', o)) : SameHeld s s' := by
  obtain ⟨_, _, _, _, -, -, hbec⟩ := processMarketData_becomes hmev h
  exact ⟨hbec.ordermap, hbec.execSlate⟩

theorem Pops.sameHeld {tim : ℕ} {sims : List (SimPl × Option ℕ)} {o : List Sent}
    (h : Pops cfg tim s sims o s') : SameHeld s s' := by
  induction h with
  | nil => exact ⟨rfl, rfl⟩
  | cons hhead hdue happly _ ih =>
      have hone := processMarketData_sameHeld (SimPl.mev_eq _) happly
      exact hone.trans ih

/-- **`process_q`** is one round, or nothing at a price of zero or less. -/
theorem processQ_rounds {pl : Pl} {o : List Sent} (hmev : pl.mev = .add ∨ pl.mev = .mod)
    (h : s.processQ cfg pl = some (s', o)) :
    ∃ acts, Rounds cfg s acts o s' ∧ SameHeld s s' ∧
      (0 < pl.px → ∃ sims, acts = [.round sims pl]) ∧ ∀ q ∈ acts.flatMap Act.pls, q = pl := by
  rcases processQ_cases h with ⟨hpx, rfl, rfl⟩ | ⟨-, hreal, t, s₁, o₁, o₂, hpop, happly, rfl⟩
  · exact ⟨[], Rounds.nil s', ⟨rfl, rfl⟩, fun hpos => absurd hpx (by omega),
      fun q hq => (List.not_mem_nil hq).elim⟩
  · obtain ⟨sims, hpops, hhead⟩ := popDelQ_pops (s := { s with lastProcessedTs := t }) rfl hpop
    have hheld : SameHeld s { s with lastProcessedTs := t } := ⟨rfl, rfl⟩
    refine ⟨[.round sims pl], ⟨?_, ?_⟩, ?_, fun _ => ⟨sims, rfl⟩,
      fun q hq => List.mem_singleton.mp hq⟩
    · refine Path.of_quiet ?_ (.one (.round hmev hreal hpops hhead happly))
      exact ⟨rfl, rfl, rfl, rfl, rfl, rfl, rfl, rfl, rfl, rfl⟩
    · intro a ha
      rw [List.mem_singleton.mp ha]
      trivial
    · exact (hheld.trans hpops.sameHeld).trans (processMarketData_sameHeld hmev happly)

theorem releaseExec_rounds {f : Released Px Pl} {o : List Sent} (hf : f.fill.pl.IsExec)
    (h : s.releaseExec cfg f = some (s', o)) :
    ∃ acts, Rounds cfg s acts o s' ∧ SameHeld s s' ∧ s'.txtimEpoch = s.txtimEpoch ∧
      ∀ q ∈ acts.flatMap Act.pls, f.fill.pl = q := by
  rcases releaseExec_cases h with ⟨rfl, rfl⟩ | ⟨s₁, hq, rfl⟩
  · exact ⟨[], Rounds.nil s', ⟨rfl, rfl⟩, rfl, fun q hq => (List.not_mem_nil hq).elim⟩
  · obtain ⟨acts, hrounds, hheld, -, hpls⟩ := processQ_rounds (.inr hf.1) hq
    refine ⟨acts, hrounds.then_quiet ?_, hheld, rfl, fun q hq => (hpls q hq).symm⟩
    exact ⟨rfl, rfl, rfl, rfl, rfl, rfl, rfl, rfl, rfl, rfl⟩

theorem releaseExecs_rounds {fs : List (Released Px Pl)} {o : List Sent}
    (hfs : ∀ f ∈ fs, f.fill.pl.IsExec) (h : releaseExecs cfg fs s = some (s', o)) :
    ∃ acts, Rounds cfg s acts o s' ∧ SameHeld s s' ∧ s'.txtimEpoch = s.txtimEpoch ∧
      ∀ q ∈ acts.flatMap Act.pls, ∃ f ∈ fs, f.fill.pl = q := by
  induction fs generalizing s o with
  | nil =>
      cases h
      exact ⟨[], Rounds.nil _, ⟨rfl, rfl⟩, rfl, fun q hq => (List.not_mem_nil hq).elim⟩
  | cons f fs ih =>
      obtain ⟨hf, hfs⟩ := List.forall_mem_cons.mp hfs
      obtain ⟨s₁, o₁, o₂, hone, hrest, rfl⟩ := andThen_some h
      obtain ⟨acts, hrounds, hheld, hclock, hpls⟩ := releaseExec_rounds hf hone
      obtain ⟨acts', hrounds', hheld', hclock', hpls'⟩ := ih hfs hrest
      refine ⟨acts ++ acts', hrounds.append hrounds', hheld.trans hheld', hclock'.trans hclock, ?_⟩
      intro q hq
      rw [List.flatMap_append] at hq
      rcases List.mem_append.mp hq with hq | hq
      · exact ⟨f, List.mem_cons_self, hpls q hq⟩
      · obtain ⟨f', hf', heq⟩ := hpls' q hq
        exact ⟨f', List.mem_cons_of_mem _ hf', heq⟩

/-- What a call of the slate releases was in it, or is given to it. -/
theorem released_from {slate slate' : Slate Px Pl} {added : Multiset (Trade Px Pl)}
    {fs : List (Released Px Pl)} (h : Balanced slate added slate' fs) :
    (∀ t ∈ slate'.unreleased, t ∈ slate.unreleased ∨ t ∈ added) ∧
      ∀ f ∈ fs, f.fill.toTrade ∈ slate.unreleased ∨ f.fill.toTrade ∈ added :=
  h.forall (fun _ ht => .inl ht) fun _ ht => .inr ht

theorem slate_onBook_from {slate : Slate Px Pl} (h : ExecsOnly slate)
    (samePx : Px → Px → Bool) (oid tx action : ℕ) (px : Px) :
    ∀ f ∈ (slate.onBook samePx oid tx action px).2, f.fill.toTrade ∈ slate.unreleased := by
  intro f hf
  have hfrom := (released_from (onBook_balanced h.inv samePx oid tx action px).1).2 f hf
  exact hfrom.resolve_right (Multiset.notMem_zero _)

/-- A record's payload that is processed leaves its market time on the clock. -/
theorem processMarketData_clock {pl : Pl} {sender : Option ℕ} {o : List Sent}
    (hmev : pl.mev = .add ∨ pl.mev = .mod) (hreal : pl.isSim = false) (hlive : pl.recovery = false)
    (h : s.processMarketData cfg pl sender = some (s', o)) : s'.txtimEpoch = pl.txtimEpoch := by
  obtain ⟨_, s₂, _, _, -, -, hpoint, -⟩ := processMarketData_stages h
  have hskip : ¬ (pl.isSim ∨ pl.recovery ∨ pl.mev = .eoburst ∨ pl.mev = .test ∨ pl.mev = .clear ∨
      pl.mev = .gap) := by
    rcases hmev with hmev | hmev
    · simp [hreal, hlive, hmev]
    · simp [hreal, hlive, hmev]
  unfold State.keepPoint at hpoint
  rw [if_neg hskip] at hpoint
  split at hpoint
  · cases hpoint
  · dsimp only at hpoint
    split at hpoint
    · cases hpoint
      rfl
    · cases hpoint
      rfl

/-- A record's own payload goes through after the executions it releases. -/
theorem processSlatedExec_rounds {m : Mbo Px} {pl : Pl} {o : List Sent}
    (hmev : pl.mev = .add ∨ pl.mev = .mod) (hslate : ExecsOnly s.execSlate)
    (h : s.processSlatedExec cfg ops m pl = some (s', o)) :
    ∃ acts, Rounds cfg s acts o s' ∧ s'.ordermap = s.ordermap ∧ ExecsOnly s'.execSlate ∧
      (0 < pl.px → ∃ sims, .round sims pl ∈ acts) ∧
      ∀ q ∈ acts.flatMap Act.pls, q = pl ∨ ∃ t ∈ s.execSlate.unreleased, t.pl = q := by
  obtain ⟨s₁, o₁, o₂, hrel, hq, rfl⟩ := processSlatedExec_some h
  obtain ⟨hslate', hexecs⟩ :=
    hslate.onBook ops.samePx m.orderID m.transactTime m.orderUpdateAction m.pxd
  obtain ⟨acts, hrounds, hsame, -, hpls⟩ := releaseExecs_rounds hexecs hrel
  obtain ⟨acts', hrounds', hsame', hone, hpls'⟩ := processQ_rounds hmev hq
  refine ⟨acts ++ acts', (hrounds.of_quiet ?_).append hrounds', ?_, ?_, ?_, ?_⟩
  · exact ⟨rfl, rfl, rfl, rfl, rfl, rfl, rfl, rfl, rfl, rfl⟩
  · exact hsame'.1.trans hsame.1
  · rw [hsame'.2, hsame.2]
    exact hslate'
  · intro hpos
    obtain ⟨sims, rfl⟩ := hone hpos
    exact ⟨sims, List.mem_append_right _ (List.mem_singleton_self _)⟩
  · intro q hq
    rw [List.flatMap_append] at hq
    rcases List.mem_append.mp hq with hq | hq
    · obtain ⟨f, hf, rfl⟩ := hpls q hq
      exact .inr ⟨_, slate_onBook_from hslate _ _ _ _ _ f hf, rfl⟩
    · exact .inl (hpls' q hq)

theorem processSlatedExec_clock {m : Mbo Px} {pl : Pl} {o : List Sent}
    (hmev : pl.mev = .add ∨ pl.mev = .mod) (hslate : ExecsOnly s.execSlate)
    (hlive : pl.recovery = false) (htim : pl.txtimEpoch = s.txtimEpoch)
    (h : s.processSlatedExec cfg ops m pl = some (s', o)) : s'.txtimEpoch = s.txtimEpoch := by
  obtain ⟨s₁, o₁, o₂, hrel, hq, rfl⟩ := processSlatedExec_some h
  have hexecs := (hslate.onBook ops.samePx m.orderID m.transactTime m.orderUpdateAction m.pxd).2
  obtain ⟨-, -, -, hclock, -⟩ := releaseExecs_rounds hexecs hrel
  rcases processQ_cases hq with ⟨-, rfl, -⟩ | ⟨-, hreal, _, _, _, _, -, happly, -⟩
  · exact hclock
  · rw [processMarketData_clock hmev hreal hlive happly, htim]

theorem mboPayload_fields {m : Mbo Px} {side : Side} {ref : LongId} {mev : Md} {action : Mt}
    {sz dispSz : ℤ} {px : Px} {eoe recovery : Bool} {pl : Pl}
    (h : s.mboPayload ops m side ref mev action sz dispSz px eoe recovery = some pl) :
    pl.mev = mev ∧ pl.px = ops.toPx px ∧ pl.tim = m.transactTime := by
  unfold State.mboPayload at h
  dsimp only at h
  split at h
  · cases h
    exact ⟨rfl, rfl, rfl⟩
  · cases h

theorem mboPayload_clock {m : Mbo Px} {side : Side} {ref : LongId} {mev : Md} {action : Mt}
    {sz dispSz : ℤ} {px : Px} {eoe recovery : Bool} {pl : Pl}
    (h : s.mboPayload ops m side ref mev action sz dispSz px eoe recovery = some pl) :
    pl.txtimEpoch = s.txtimEpoch ∧ pl.recovery = recovery := by
  unfold State.mboPayload at h
  dsimp only at h
  split at h
  · cases h
    exact ⟨rfl, rfl⟩
  · cases h

/-- A payload of the record at hand, with the market time on the clock, or an execution from
    the slate. -/
def Pl.From (s : State Px) (m : Mbo Px) (pl : Pl) : Prop :=
  pl.txtimEpoch = s.txtimEpoch ∧ pl.recovery = m.recovery ∨
    ∃ t ∈ s.execSlate.unreleased, t.pl = pl

/-- The prices of the map are on the ladder, and the slate holds executions. -/
structure Held (cfg : FeedCfg) (ops : PriceOps Px) (s : State Px) : Prop where
  ladder : ∀ i e, s.ordermap.lookup i = some e → onLadder cfg ops e.px = true
  execs : ExecsOnly s.execSlate

theorem Held.of_same (h : Held cfg ops s) (hsame : SameHeld s s') : Held cfg ops s' :=
  ⟨hsame.1 ▸ h.ladder, hsame.2 ▸ h.execs⟩

theorem Held.insert (h : Held cfg ops s) {i : ℕ} {e : OrderInfo Px}
    (he : onLadder cfg ops e.px = true) (hmap : s'.ordermap = s.ordermap.insert i e)
    (hslate : ExecsOnly s'.execSlate) : Held cfg ops s' := by
  refine ⟨?_, hslate⟩
  intro j e' he'
  rw [hmap] at he'
  by_cases hj : j = i
  · subst hj
    rw [AList.lookup_insert] at he'
    cases he'
    exact he
  · rw [AList.lookup_insert_ne hj] at he'
    exact h.ladder j e' he'

theorem onLadder_pos {px : Px} (h : onLadder cfg ops px = true) : 0 < ops.toPx px := by
  simp only [onLadder, Bool.and_eq_true, decide_eq_true_eq] at h
  exact h.1

/-- The record goes through `process_q`: a New of an order that is not held, a Change or a
    Delete of one that is. -/
def Drives (ops : PriceOps Px) (s : State Px) (m : Mbo Px) : Prop :=
  match s.ordermap.lookup m.orderID with
  | none => m.orderUpdateAction = 0 ∧ ops.pos m.pxd = true
  | some _ => m.orderUpdateAction ≠ 0

/-- A round for the record. -/
def HasRound (m : Mbo Px) (acts : List Act) : Prop :=
  ∃ sims pl, .round sims pl ∈ acts ∧ pl.tim = m.transactTime

theorem onAdd_rounds {m : Mbo Px} {o : List Sent} (hs : Held cfg ops s)
    (hpx : onLadder cfg ops m.pxd = true) (h : s.onAdd cfg ops m = some (s', o)) :
    ∃ acts, Rounds cfg s acts o s' ∧ Held cfg ops s' ∧
      (s.ordermap.lookup m.orderID = none → ops.pos m.pxd = true → HasRound m acts) ∧
      ∀ q ∈ acts.flatMap Act.pls, q.From s m := by
  cases onAdd_cases h with
  | resent he =>
      refine ⟨[], (Rounds.nil s).then_quiet ?_, hs.insert hpx rfl hs.execs, ?_,
        fun q hq => (List.not_mem_nil hq).elim⟩
      · exact ⟨rfl, rfl, rfl, rfl, rfl, rfl, rfl, rfl, rfl, rfl⟩
      · intro hnone
        rw [hnone] at he
        cases he
  | ignored hnot =>
      refine ⟨[], Rounds.nil s, hs, ?_, fun q hq => (List.not_mem_nil hq).elim⟩
      intro hnone hpos
      rw [hnone, hpos] at hnot
      rcases hnot with hnot | hnot <;> cases hnot
  | @entered _ s₁ _ pl _ _ hs₁ hpl hq =>
      subst hs₁
      obtain ⟨hmev, hplpx, htim⟩ := mboPayload_fields hpl
      obtain ⟨acts, hrounds, hsame, hround, hpls⟩ := processQ_rounds (.inl hmev) hq
      refine ⟨acts, hrounds.of_quiet ?_, ?_, ?_, fun q hq => ?_⟩
      · exact ⟨rfl, rfl, rfl, rfl, rfl, rfl, rfl, rfl, rfl, rfl⟩
      · exact Held.insert hs hpx hsame.1 (hsame.2 ▸ hs.execs)
      · intro _ _
        obtain ⟨sims, rfl⟩ := hround (by rw [hplpx]; exact onLadder_pos hpx)
        exact ⟨sims, pl, List.mem_singleton_self _, htim⟩
      · rw [hpls q hq]
        exact .inl (mboPayload_clock hpl)

theorem onCancd_rounds {m : Mbo Px} {o : List Sent} (hs : Held cfg ops s)
    (h : s.onCancd cfg ops m = some (s', o)) :
    ∃ acts, Rounds cfg s acts o s' ∧ Held cfg ops s' ∧
      ((s.ordermap.lookup m.orderID).isSome → HasRound m acts) ∧
      ∀ q ∈ acts.flatMap Act.pls, q.From s m := by
  rcases onCancd_cases h with ⟨hnone, rfl, rfl⟩ | ⟨e, pl, s₁, he, hpl, hexec, rfl⟩
  · refine ⟨[], Rounds.nil s', hs, ?_, fun q hq => (List.not_mem_nil hq).elim⟩
    intro hsome
    rw [hnone] at hsome
    cases hsome
  · obtain ⟨hmev, hplpx, htim⟩ := mboPayload_fields hpl
    obtain ⟨acts, hrounds, hmap, hslate, hround, hpls⟩ :=
      processSlatedExec_rounds (.inr hmev) hs.execs hexec
    refine ⟨acts, hrounds.then_quiet ?_, ⟨?_, hslate⟩, ?_, fun q hq => ?_⟩
    · exact ⟨rfl, rfl, rfl, rfl, rfl, rfl, rfl, rfl, rfl, rfl⟩
    · intro i e' he'
      by_cases hi : i = m.orderID
      · subst hi
        have hsame : (s₁.ordermap.erase m.orderID).lookup m.orderID = some e' := he'
        rw [AList.lookup_erase] at hsame
        cases hsame
      · have hsame : (s₁.ordermap.erase m.orderID).lookup i = some e' := he'
        rw [AList.lookup_erase_ne hi, hmap] at hsame
        exact hs.ladder i e' hsame
    · intro _
      obtain ⟨sims, hmem⟩ := hround (by rw [hplpx]; exact onLadder_pos (hs.ladder _ _ he))
      exact ⟨sims, pl, hmem, htim⟩
    · rcases hpls q hq with rfl | hslated
      · exact .inl (mboPayload_clock hpl)
      · exact .inr hslated

theorem cancReplace_rounds {m : Mbo Px} {e : OrderInfo Px} {o : List Sent}
    (hs : Held cfg ops s) (hpx : onLadder cfg ops m.pxd = true) (hlive : m.recovery = false)
    (he : s.ordermap.lookup m.orderID = some e) (h : s.cancReplace cfg ops m e = some (s', o)) :
    ∃ acts, Rounds cfg s acts o s' ∧ Held cfg ops s' ∧ HasRound m acts ∧
      ∀ q ∈ acts.flatMap Act.pls, q.From s m := by
  obtain ⟨pl₁, s₁, o₁, pl₂, s₂, o₂, hpl₁, hexec, hpl₂, hq, -, rfl, rfl⟩ := cancReplace_some h
  obtain ⟨hmev₁, hplpx₁, htim₁⟩ := mboPayload_fields hpl₁
  obtain ⟨hmev₂, -, -⟩ := mboPayload_fields hpl₂
  obtain ⟨acts, hrounds, hmap, hslate, hround, hpls⟩ :=
    processSlatedExec_rounds (.inr hmev₁) hs.execs hexec
  obtain ⟨acts', hrounds', hsame, -, hpls'⟩ := processQ_rounds (.inl hmev₂) hq
  obtain ⟨hclock₁, hrec₁⟩ := mboPayload_clock hpl₁
  obtain ⟨hclock₂, hrec₂⟩ := mboPayload_clock hpl₂
  have hafter := processSlatedExec_clock (.inr hmev₁) hs.execs hrec₁ hclock₁ hexec
  refine ⟨acts ++ acts', ?_, ?_, ?_, fun q hq => ?_⟩
  · refine hrounds.append ((hrounds'.of_quiet ?_).then_quiet ?_)
    · exact ⟨rfl, rfl, rfl, rfl, rfl, rfl, rfl, rfl, rfl, rfl⟩
    · exact ⟨rfl, rfl, rfl, rfl, rfl, rfl, rfl, rfl, rfl, rfl⟩
  · have hmap₂ : s₂.ordermap = s.ordermap := hsame.1.trans hmap
    refine Held.insert hs (i := m.orderID)
      (e := { e with
        chopid := s₁.nextId m, xoid := m.orderID, sz := m.displayQty, px := replacePx m e })
      (replacePx_onLadder hpx (hs.ladder _ _ he)) ?_ ?_
    · change s₂.ordermap.insert _ _ = _
      rw [hmap₂]
    · change ExecsOnly s₂.execSlate
      rw [hsame.2]
      exact hslate
  · obtain ⟨sims, hmem⟩ := hround (by rw [hplpx₁]; exact onLadder_pos (hs.ladder _ _ he))
    exact ⟨sims, pl₁, List.mem_append_left _ hmem, htim₁⟩
  · rw [List.flatMap_append] at hq
    rcases List.mem_append.mp hq with hq | hq
    · rcases hpls q hq with rfl | hslated
      · exact .inl ⟨hclock₁, hrec₁.trans hlive.symm⟩
      · exact .inr hslated
    · rw [hpls' q hq]
      exact .inl ⟨hclock₂.trans hafter, hrec₂.trans hlive.symm⟩

theorem onCanc_rounds {m : Mbo Px} {o : List Sent} (hs : Held cfg ops s)
    (hpx : onLadder cfg ops m.pxd = true) (hlive : m.recovery = false)
    (h : s.onCanc cfg ops m = some (s', o)) :
    ∃ acts, Rounds cfg s acts o s' ∧ Held cfg ops s' ∧
      ((s.ordermap.lookup m.orderID).isSome → HasRound m acts) ∧
      ∀ q ∈ acts.flatMap Act.pls, q.From s m := by
  rcases onCanc_cases h with ⟨hnone, rfl, rfl⟩ |
    ⟨e, he, ⟨-, -, hreplace⟩ | ⟨-, pl, s₁, hs₁, hpl, hexec⟩⟩
  · refine ⟨[], Rounds.nil s', hs, ?_, fun q hq => (List.not_mem_nil hq).elim⟩
    intro hsome
    rw [hnone] at hsome
    cases hsome
  · obtain ⟨acts, hrounds, hs', hround, hpls⟩ := cancReplace_rounds hs hpx hlive he hreplace
    exact ⟨acts, hrounds, hs', fun _ => hround, hpls⟩
  · obtain ⟨hmev, hplpx, htim⟩ := mboPayload_fields hpl
    have hheld : Held cfg ops s₁ := by
      rw [hs₁]
      exact hs.insert (e := { e with sz := m.displayQty }) (hs.ladder m.orderID e he) rfl hs.execs
    obtain ⟨acts, hrounds, hmap, hslate, hround, hpls⟩ :=
      processSlatedExec_rounds (.inr hmev) hheld.execs hexec
    refine ⟨acts, hrounds.of_quiet ?_, ⟨hmap ▸ hheld.ladder, hslate⟩, ?_, fun q hq => ?_⟩
    · rw [hs₁]
      exact ⟨rfl, rfl, rfl, rfl, rfl, rfl, rfl, rfl, rfl, rfl⟩
    · intro _
      obtain ⟨sims, hmem⟩ := hround (by rw [hplpx]; exact onLadder_pos (hs.ladder _ _ he))
      exact ⟨sims, pl, hmem, htim⟩
    · have hfrom : q.From s₁ m := by
        rcases hpls q hq with rfl | hslated
        · exact .inl (mboPayload_clock hpl)
        · exact .inr hslated
      rwa [hs₁] at hfrom

/-- **A book record** comes down to rounds; one of them is its own when it drives. -/
theorem applyMbo_rounds {m : Mbo Px} {bad : Bool} {o : List Sent} (hs : Held cfg ops s)
    (hbad : bad = !onLadder cfg ops m.pxd) (hnew : bad = true → m.orderUpdateAction ≠ 0)
    (h : s.applyMbo cfg ops m bad = some (s', o)) :
    ∃ acts, Rounds cfg s acts o s' ∧ Held cfg ops s' ∧ (Drives ops s m → HasRound m acts) ∧
      ∀ q ∈ acts.flatMap Act.pls, q.From s m := by
  have hsome : Drives ops s m → m.orderUpdateAction ≠ 0 →
      (s.ordermap.lookup m.orderID).isSome := by
    intro hdrives haction
    unfold Drives at hdrives
    split at hdrives
    · exact absurd hdrives.1 haction
    next e he =>
      rw [he]
      rfl
  have hpx : bad = false → onLadder cfg ops m.pxd = true := by
    intro hgood
    rwa [hbad, Bool.not_eq_false'] at hgood
  obtain ⟨hrecovery, hbranch⟩ := applyMbo_cases h
  rcases hbranch with ⟨hdel, h⟩ | ⟨hgood, haction, h⟩ | ⟨hgood, hchange, h⟩
  · have haction : m.orderUpdateAction ≠ 0 := by
      rcases hdel with hdel | hdel
      · omega
      · exact hnew hdel
    obtain ⟨acts, hrounds, hs', hround, hpls⟩ := onCancd_rounds hs h
    exact ⟨acts, hrounds, hs', fun hdrives => hround (hsome hdrives haction), hpls⟩
  · obtain ⟨acts, hrounds, hs', hround, hpls⟩ := onAdd_rounds hs (hpx hgood) h
    refine ⟨acts, hrounds, hs', ?_, hpls⟩
    intro hdrives
    unfold Drives at hdrives
    split at hdrives
    next hnone => exact hround hnone hdrives.2
    · exact absurd haction hdrives
  · have hlive : m.recovery = false := by
      rw [Bool.eq_false_iff]
      intro hrec
      have hnew := hrecovery hrec
      omega
    obtain ⟨acts, hrounds, hs', hround, hpls⟩ := onCanc_rounds hs (hpx hgood) hlive h
    refine ⟨acts, hrounds, hs', fun hdrives => hround (hsome hdrives ?_), hpls⟩
    omega

theorem slated_time {t : MboTrd} {trade : Trade Px Pl} (h : s.slated ops t = some trade) :
    (s.ordermap.lookup t.orderID).isSome ∧ trade.pl.txtimEpoch = s.txtimEpoch := by
  unfold State.slated at h
  split at h
  · cases h
  next e he =>
    cases h
    exact ⟨by rw [he]; rfl, rfl⟩

theorem onTrd_rounds {t : MboTrd} {o : List Sent} (hs : Held cfg ops s)
    (h : s.onTrd cfg ops t = some (s', o)) :
    ∃ acts, Rounds cfg s acts o s' ∧ Held cfg ops s' ∧
      ∀ q ∈ acts.flatMap Act.pls,
        (s.ordermap.lookup t.orderID).isSome ∧ q.txtimEpoch = t.transactTime ∨
          ∃ x ∈ s.execSlate.unreleased, x.pl = q := by
  rcases onTrd_cases h with ⟨-, rfl, rfl⟩ | ⟨-, s₁, o₁, o₂, hadvanced, rfl, hslated⟩
  · exact ⟨[], Rounds.nil s', hs, fun q hq => (List.not_mem_nil hq).elim⟩
  · obtain ⟨hslate, hexecs⟩ := hs.execs.advance t.transactTime
    obtain ⟨hkept, hfrom⟩ := released_from (advance_balanced hs.execs.inv t.transactTime).1
    obtain ⟨acts, hrounds, hsame, hclock, hpls⟩ := releaseExecs_rounds hexecs hadvanced
    have hfirst : ∀ q ∈ acts.flatMap Act.pls, ∃ x ∈ s.execSlate.unreleased, x.pl = q := by
      intro q hq
      obtain ⟨f, hf, rfl⟩ := hpls q hq
      exact ⟨_, (hfrom f hf).resolve_right (Multiset.notMem_zero _), rfl⟩
    have hrounds : Rounds cfg s acts o₁ s₁ := by
      refine Rounds.of_quiet ?_ hrounds
      exact ⟨rfl, rfl, rfl, rfl, rfl, rfl, rfl, rfl, rfl, rfl⟩
    have hslate₁ : ExecsOnly s₁.execSlate := by
      rw [hsame.2]
      exact hslate
    have hs₁ : Held cfg ops s₁ := ⟨hsame.1 ▸ hs.ladder, hslate₁⟩
    rcases hslated with ⟨-, rfl, rfl⟩ | ⟨trade, htrade, hrel⟩
    · exact ⟨acts, by rwa [List.append_nil], hs₁, fun q hq => .inr (hfirst q hq)⟩
    · obtain ⟨hslate', hexecs'⟩ := hs₁.execs.onTrade htrade
      obtain ⟨acts', hrounds', hsame', -, hpls'⟩ := releaseExecs_rounds hexecs' hrel
      obtain ⟨-, hfrom'⟩ := released_from (onTrade_balanced hs₁.execs.inv trade).1
      obtain ⟨hheld, htim⟩ := slated_time htrade
      refine ⟨acts ++ acts', hrounds.append (hrounds'.of_quiet ?_), ?_, fun q hq => ?_⟩
      · exact ⟨rfl, rfl, rfl, rfl, rfl, rfl, rfl, rfl, rfl, rfl⟩
      · refine ⟨?_, ?_⟩
        · rw [hsame'.1]
          exact hs₁.ladder
        · rw [hsame'.2]
          exact hslate'
      · rw [List.flatMap_append] at hq
        rcases List.mem_append.mp hq with hq | hq
        · exact .inr (hfirst q hq)
        · obtain ⟨f, hf, rfl⟩ := hpls' q hq
          rcases hfrom' f hf with hold | hnew
          · -- it was on the slate before the record
            right
            refine ⟨_, (hkept _ ?_).resolve_right (Multiset.notMem_zero _), rfl⟩
            rw [hsame.2] at hold
            exact hold
          · left
            have hpl : f.fill.pl = trade.pl := congrArg Trade.pl (Multiset.mem_singleton.mp hnew)
            rw [hpl, htim, hclock]
            refine ⟨?_, rfl⟩
            rw [← hsame.1]
            exact hheld

/-! ### Messages -/

theorem clear_held {o : List Sent} (h : s.clear cfg = some (s', o)) : Held cfg ops s' := by
  obtain ⟨⟨b, n⟩, -, heq⟩ := Option.map_eq_some_iff.mp h
  cases heq
  refine ⟨?_, execsOnly_clear _⟩
  intro i e he
  have hnone : (∅ : Map ℕ (OrderInfo Px)).lookup i = none := AList.lookup_empty i
  have hsome : (∅ : Map ℕ (OrderInfo Px)).lookup i = some e := he
  rw [hnone] at hsome
  cases hsome

/-- What a recovery's first record does before it is applied. -/
def IsClear : Act → Prop
  | .clear => True
  | _ => False

theorem trackRecovery_path {m : Mbo Px} {o : List Sent} (hs : Held cfg ops s)
    (h : s.trackRecovery cfg m = some (s', o)) :
    ∃ acts, Path cfg s acts o s' ∧ (∀ a ∈ acts, IsClear a) ∧ Held cfg ops s' ∧
      s'.ordermap.lookup m.orderID =
        if m.recovery = true ∧ s.isInRecovery = false then none
        else s.ordermap.lookup m.orderID := by
  rcases trackRecovery_cases h with ⟨hrec, hnot, s₁, hclear, rfl⟩ | ⟨hnot, rfl, rfl⟩
  · have hheld : Held cfg ops s₁ := clear_held hclear
    refine ⟨[.clear], ?_, ?_, ⟨hheld.ladder, hheld.execs⟩, ?_⟩
    · refine (Path.one (.clear hclear)).then_quiet ?_
      exact ⟨rfl, rfl, rfl, rfl, rfl, rfl, rfl, rfl, rfl, rfl⟩
    · intro a ha
      rw [List.mem_singleton.mp ha]
      trivial
    · obtain ⟨⟨b, n⟩, -, heq⟩ := Option.map_eq_some_iff.mp hclear
      cases heq
      rw [if_pos ⟨hrec, hnot⟩]
      exact AList.lookup_empty m.orderID
  · rw [if_neg hnot]
    refine ⟨[], .nil ?_, fun a ha => (List.not_mem_nil ha).elim, ⟨hs.ladder, hs.execs⟩, rfl⟩
    exact ⟨rfl, rfl, rfl, rfl, rfl, rfl, rfl, rfl, rfl, rfl⟩

theorem onControl_held {mev : Md} {o : List Sent} (hs : Held cfg ops s)
    (hmev : mev = .clear ∨ mev = .gap ∨ mev = .eoburst)
    (h : s.onControl cfg mev = some (s', o)) : Held cfg ops s' := by
  rcases onControl_cases hmev h with ⟨-, s₁, s₂, o₁, -, hclear, hafter⟩ | ⟨-, hkept⟩
  · exact (clear_held hclear).of_same ⟨hafter.ordermap, hafter.execSlate⟩
  · exact hs.of_same ⟨hkept.ordermap, hkept.execSlate⟩

/-- One of our orders with the book's clock on it. -/
def State.timed (s : State Px) (p : SimPl) : SimPl :=
  { p with sendTim := s.currtim, txtimEpoch := s.currtim }

/-- The orders of ours that an act puts in the queue. -/
def Act.waits : Act → List (SimPl × Option ℕ)
  | .wait p sender => [(p, sender)]
  | _ => []

/-- The orders of ours that a message puts in the queue: those with a market time. -/
def State.arrival (s : State Px) : Event Px → List (SimPl × Option ℕ)
  | .sim p sender => if p.ts0 = 0 then [] else [(s.timed p, sender)]
  | _ => []

theorem waits_of_rounds {acts : List Act} (h : ∀ a ∈ acts, a.IsRound) :
    acts.flatMap Act.waits = [] := by
  rw [List.flatMap_eq_nil_iff]
  intro a ha
  have hround := h a ha
  cases a <;> first | rfl | exact hround.elim

theorem waits_of_clears {acts : List Act} (h : ∀ a ∈ acts, IsClear a) :
    acts.flatMap Act.waits = [] := by
  rw [List.flatMap_eq_nil_iff]
  intro a ha
  have hclear := h a ha
  cases a <;> first | rfl | exact hclear.elim

theorem gate_stamp (s : State Px) (m : Mbo Px) : Does cfg s .stamp [] ((s.stamped m).gate m).1 := by
  unfold State.gate State.stamped
  dsimp only
  split_ifs <;> exact .stamp rfl rfl rfl rfl rfl rfl rfl

theorem firstRecord_stamp (s : State Px) (txTime : ℕ) (isSst : Bool) :
    Does cfg s .stamp [] (s.firstRecord cfg txTime isSst) := by
  unfold State.firstRecord
  split <;> exact .stamp rfl rfl rfl rfl rfl rfl rfl

theorem firstRecord_book (cfg : FeedCfg) (s : State Px) (txTime : ℕ) (isSst : Bool) :
    (s.firstRecord cfg txTime isSst).book = s.book := by
  unfold State.firstRecord
  split <;> rfl

theorem firstRecord_sameHeld (cfg : FeedCfg) (s : State Px) (txTime : ℕ) (isSst : Bool) :
    SameHeld s (s.firstRecord cfg txTime isSst) := by
  unfold State.firstRecord
  split <;> exact ⟨rfl, rfl⟩

theorem gate_book (s : State Px) (m : Mbo Px) : ((s.stamped m).gate m).1.book = s.book := by
  unfold State.gate State.stamped
  dsimp only
  split_ifs <;> rfl

theorem gate_sameHeld (s : State Px) (m : Mbo Px) : SameHeld s ((s.stamped m).gate m).1 := by
  unfold State.gate State.stamped
  dsimp only
  split_ifs <;> exact ⟨rfl, rfl⟩

/-- A book record, act by act. -/
theorem onMbo_path {m : Mbo Px} {o : List Sent} (hs : Held cfg ops s)
    (h : s.onMbo cfg ops m = some (s', o)) :
    ∃ acts, Path cfg s acts o s' ∧ Held cfg ops s' ∧ acts.flatMap Act.waits = [] := by
  rcases onMbo_cases h with ⟨-, ⟨t, t', rfl⟩, rfl⟩ | ⟨-, -, rfl, rfl⟩ |
    ⟨hreaches, -, s₁, o₁, o₂, htrack, happly, rfl⟩
  · exact ⟨[], .nil (quiet_clock s t t'), hs.of_same ⟨rfl, rfl⟩, rfl⟩
  · exact ⟨[.stamp], .one (gate_stamp s m), hs.of_same (gate_sameHeld s m), rfl⟩
  · obtain ⟨acts, htracked, hclears, hs₁, -⟩ :=
      trackRecovery_path (hs.of_same (gate_sameHeld s m)) htrack
    obtain ⟨acts', hrounds, hs', -⟩ := applyMbo_rounds hs₁ rfl hreaches.not_new happly
    refine ⟨.stamp :: (acts ++ acts'), ?_, hs', ?_⟩
    · have hcons := Path.cons (Quiet.refl s) (gate_stamp s m) (htracked.append hrounds.1)
      exact hcons
    · rw [List.flatMap_cons, List.flatMap_append, waits_of_clears hclears,
        waits_of_rounds hrounds.2]
      rfl

/-- **Every message comes down to acts.** -/
theorem handle_path {e : Event Px} {o : List Sent} (hs : Held cfg ops s)
    (h : handle cfg ops s e = some (s', o)) :
    ∃ acts, Path cfg s acts o s' ∧ Held cfg ops s' ∧ acts.flatMap Act.waits = s.arrival e := by
  have hcontrol : ∀ {mev : Md}, s.onControl cfg mev = some (s', o) →
      ∃ acts, Path cfg s acts o s' ∧ acts.flatMap Act.waits = [] := fun hmev =>
    ⟨_, .one (.direct rfl hmev), rfl⟩
  cases e with
  | mbo m =>
      have hfirst := firstRecord_sameHeld cfg s m.transactTime false
      obtain ⟨acts, hpath, hs', hwaits⟩ := onMbo_path (hs.of_same hfirst) h
      exact ⟨.stamp :: acts, .cons (Quiet.refl s) (firstRecord_stamp s _ _) hpath, hs', hwaits⟩
  | mboTrd t =>
      have hfirst := firstRecord_sameHeld cfg s t.transactTime false
      obtain ⟨acts, hrounds, hs', -⟩ := onTrd_rounds (hs.of_same hfirst) h
      have hwaits := waits_of_rounds hrounds.2
      exact ⟨.stamp :: acts, .cons (Quiet.refl s) (firstRecord_stamp s _ _) hrounds.1, hs', hwaits⟩
  | chr =>
      obtain ⟨acts, hpath, hwaits⟩ := hcontrol h
      exact ⟨acts, hpath, onControl_held hs (.inl rfl) h, hwaits⟩
  | gap =>
      obtain ⟨acts, hpath, hwaits⟩ := hcontrol h
      exact ⟨acts, hpath, onControl_held hs (.inr (.inl rfl)) h, hwaits⟩
  | eob =>
      obtain ⟨acts, hpath, hwaits⟩ := hcontrol h
      exact ⟨acts, hpath, onControl_held hs (.inr (.inr rfl)) h, hwaits⟩
  | sst txtim tradingStatus =>
      cases h
      have hfirst := firstRecord_sameHeld cfg s txtim true
      refine ⟨[.stamp], .one ?_, hs.of_same ⟨hfirst.1, hfirst.2⟩, rfl⟩
      unfold State.firstRecord
      split <;> exact .stamp rfl rfl rfl rfl rfl rfl rfl
  | other txTime =>
      cases h
      exact ⟨[.stamp], .one (firstRecord_stamp s _ _),
        hs.of_same (firstRecord_sameHeld cfg s txTime false), rfl⟩
  | sim p sender =>
      obtain ⟨-, ⟨htim, happly⟩ | ⟨htim, rfl, rfl⟩⟩ := onSim_cases h
      · refine ⟨[.direct (s.timed p).toPl sender], .one (.direct htim happly), ?_, ?_⟩
        · exact hs.of_same (processMarketData_sameHeld (s.timed p).mev_eq happly)
        · exact (if_pos htim).symm
      · exact ⟨[.wait (s.timed p) sender], .one (.wait s (s.timed p) sender),
          ⟨hs.ladder, hs.execs⟩, (if_neg htim).symm⟩
  | bbboSub sender =>
      cases h
      exact ⟨[.subscribe], .one (.subscribe rfl rfl rfl (fun _ ha => ha) fun _ ha => ha),
        ⟨hs.ladder, hs.execs⟩, rfl⟩
  | subscribe hi sender =>
      obtain ⟨-, rfl, rfl | rfl⟩ := subscribe_cases h
      · exact ⟨[.subscribe], .one (.subscribe rfl rfl rfl
          (fun _ ha => List.mem_append_left _ ha) fun _ ha => ha), ⟨hs.ladder, hs.execs⟩, rfl⟩
      · exact ⟨[.subscribe], .one (.subscribe rfl rfl rfl
          (fun _ ha => ha) fun _ ha => List.mem_append_left _ ha), ⟨hs.ladder, hs.execs⟩, rfl⟩

end KasparHft.OB
