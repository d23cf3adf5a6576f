import KasparHft.OrderBookMap
import KasparHft.OrderBookPath

/-!
# The recovery gate of the order book

A record is let through by its time: a live one when it is later than the last snapshot
record, a snapshot one when it is no earlier than the last live record.  The gate writes
the time of a record down before it tests it, so a record it rejects, or one that comes
late in its own stream, lowers what the next test is made against.

Where no record does that, the times the gate keeps are the largest that were applied, and
the gate does what it is for.
-/

namespace KasparHft.OB

open AssocMap FillSlate Machine

variable {Px : Type} {cfg : FeedCfg} {ops : PriceOps Px} {s s' : State Px}

/-! ### What moves the gate -/

/-- The times the gate keeps, and whether a record has been seen. -/
def SameGate (s s' : State Px) : Prop :=
  s'.lastTxTim = s.lastTxTim ∧ s'.lastRecoveryTxTim = s.lastRecoveryTxTim ∧
    s'.firstRecordSeen = s.firstRecordSeen

theorem SameGate.refl (s : State Px) : SameGate s s := ⟨rfl, rfl, rfl⟩

theorem SameGate.trans {s₁ : State Px} (h : SameGate s s₁) (h' : SameGate s₁ s') :
    SameGate s s' :=
  ⟨h'.1.trans h.1, h'.2.1.trans h.2.1, h'.2.2.trans h.2.2⟩

theorem drained_sameGate (s : State Px) (pl : Pl) : SameGate s (s.drained pl).1 := by
  unfold State.drained
  split <;> exact ⟨rfl, rfl, rfl⟩

theorem checkCross_sameGate {pl : Pl} (h : s.checkCross cfg pl = some s') : SameGate s s' := by
  have hlater : SameGate s
      (if pl.isSim = false ∧ s.xcheckTx < pl.tim then { s with xcheckTx := pl.tim } else s) := by
    split <;> exact ⟨rfl, rfl, rfl⟩
  unfold State.checkCross at h
  dsimp only at h
  split at h
  · split at h
    · cases h
    · cases h
      exact hlater
  · cases h
    exact hlater

theorem handleEoburst_sameGate {pl : Pl} {o : List Sent}
    (h : s.handleEoburst cfg pl = (s', o)) : SameGate s s' := by
  obtain rfl : (s.handleEoburst cfg pl).1 = s' := congrArg Prod.fst h
  unfold State.handleEoburst
  split <;> exact ⟨rfl, rfl, rfl⟩

theorem keepPoint_sameGate {pl : Pl} {o : List Sent} (h : s.keepPoint cfg pl = some (s', o)) :
    SameGate s s' := by
  unfold State.keepPoint at h
  split at h
  · cases h
    exact SameGate.refl s
  · split at h
    · cases h
    · dsimp only at h
      split at h <;> cases h <;> exact ⟨rfl, rfl, rfl⟩

theorem clear_sameGate {o : List Sent} (h : s.clear cfg = some (s', o)) : SameGate s s' := by
  obtain ⟨r, -, heq⟩ := Option.map_eq_some_iff.mp h
  cases heq
  exact ⟨rfl, rfl, rfl⟩

theorem processAddOrMod_sameGate {pl : Pl} {sender : Option ℕ} {o : List Sent}
    (hmev : pl.mev ≠ .clear) (h : s.processAddOrMod cfg pl sender = some (s', o)) :
    SameGate s s' := by
  cases processAddOrMod_cases h with
  | @call b n _ _ _ _ _ hburst =>
      have htold : SameGate s (State.tell cfg { s with book := b } n).1 := ⟨rfl, rfl, rfl⟩
      exact htold.trans (handleEoburst_sameGate hburst)
  | burst _ hburst => exact handleEoburst_sameGate hburst
  | clear hclear => exact absurd hclear hmev
  | gap => exact SameGate.refl s
  | nothing => exact SameGate.refl s

/-- No payload but a channel reset moves the gate. -/
theorem processMarketData_sameGate {pl : Pl} {sender : Option ℕ} {o : List Sent}
    (hmev : pl.mev ≠ .clear) (h : s.processMarketData cfg pl sender = some (s', o)) :
    SameGate s s' := by
  obtain ⟨s₁, s₂, o₁, o₂, hcheck, hcall, hpoint, -⟩ := processMarketData_stages h
  have hbefore := (drained_sameGate s pl).trans (checkCross_sameGate hcheck)
  exact (hbefore.trans (processAddOrMod_sameGate hmev hcall)).trans (keepPoint_sameGate hpoint)

theorem Pops.sameGate {tim : ℕ} {sims : List (SimPl × Option ℕ)} {o : List Sent}
    (h : Pops cfg tim s sims o s') : SameGate s s' := by
  induction h with
  | nil s => exact SameGate.refl s
  | cons hhead hdue happly _ ih =>
      have hone := processMarketData_sameGate (order_ne_clear (SimPl.mev_eq _)) happly
      exact hone.trans ih

theorem Quiet.sameGate (h : Quiet s s') : SameGate s s' :=
  ⟨h.lastTxTim, h.lastRecoveryTxTim, h.firstRecordSeen⟩

/-- Only stamps and channel resets move the gate. -/
theorem Path.sameGate {acts : List Act} {o : List Sent} (h : Path cfg s acts o s')
    (hacts : ∀ a ∈ acts, a.IsRound ∨ IsClear a) : SameGate s s' := by
  induction h with
  | nil hquiet => exact hquiet.sameGate
  | cons hquiet hact _ ih =>
      obtain ⟨ha, hrest⟩ := List.forall_mem_cons.mp hacts
      refine (hquiet.sameGate.trans ?_).trans (ih hrest)
      cases hact with
      | round hmev hreal hpops hhead happly =>
          exact hpops.sameGate.trans (processMarketData_sameGate (order_ne_clear hmev) happly)
      | clear hclear => exact clear_sameGate hclear
      | direct => exact ha.elim False.elim False.elim
      | wait => exact ha.elim False.elim False.elim
      | stamp => exact ha.elim False.elim False.elim
      | subscribe => exact ha.elim False.elim False.elim

/-! ### The gate -/

/-- The time the gate keeps of the record's own stream. -/
def State.ownTime (s : State Px) (m : Mbo Px) : ℕ :=
  if m.recovery then s.lastRecoveryTxTim else s.lastTxTim

/-- The record comes too late against what is kept of the other stream. -/
def Late (s : State Px) (m : Mbo Px) : Prop :=
  if m.recovery then s.lastTxTim ≠ 0 ∧ m.transactTime < s.lastTxTim
  else s.lastRecoveryTxTim ≠ 0 ∧ m.transactTime ≤ s.lastRecoveryTxTim

/-- The gate writes the record's time down, whatever it decides. -/
theorem gate_fst {m : Mbo Px} (htim : m.transactTime ≠ 0) :
    (s.gate m).1 =
      if m.recovery then { s with lastRecoveryTxTim := m.transactTime }
      else { s with lastTxTim := m.transactTime } := by
  unfold State.gate
  dsimp only
  rw [if_neg htim]
  rcases m.recovery with _ | _
  · simp only [Bool.false_eq_true, if_false]
    split_ifs <;> rfl
  · simp only [if_true]
    split_ifs <;> rfl

theorem gate_snd {m : Mbo Px} (htim : m.transactTime ≠ 0) :
    (s.gate m).2 = false ↔ Late s m := by
  unfold State.gate Late
  dsimp only
  rw [if_neg htim]
  rcases m.recovery with _ | _
  · simp only [Bool.false_eq_true, if_false]
    split_ifs <;> simp_all
  · simp only [if_true]
    split_ifs <;> simp_all

/-! ### What the gate is for -/

/-- The times of the records applied since the last channel reset. -/
structure Applied where
  live : List ℕ := []
  snapshot : List ℕ := []

/-- A record is applied when it gets to the gate and passes. -/
def noteApplied (cfg : FeedCfg) (ops : PriceOps Px) (s : State Px) : Event Px → Applied → Applied
  | .mbo m, g =>
      if Reaches cfg ops m ∧ (s.gate m).2 = true then
        if m.recovery then { g with snapshot := m.transactTime :: g.snapshot }
        else { g with live := m.transactTime :: g.live }
      else g
  | .chr, _ => {}
  | _, g => g

theorem noteApplied_of_not {g : Applied} {m : Mbo Px}
    (h : ¬ (Reaches cfg ops m ∧ (s.gate m).2 = true)) :
    noteApplied cfg ops s (.mbo m) g = g := if_neg h

theorem noteApplied_of_passes {g : Applied} {m : Mbo Px}
    (h : Reaches cfg ops m ∧ (s.gate m).2 = true) :
    noteApplied cfg ops s (.mbo m) g =
      if m.recovery then { g with snapshot := m.transactTime :: g.snapshot }
      else { g with live := m.transactTime :: g.live } := if_pos h

/-- A live record is later than every snapshot record applied, a snapshot record no earlier
    than any live one. -/
def InOrder (g : Applied) (m : Mbo Px) : Prop :=
  if m.recovery then ∀ t ∈ g.live, t ≤ m.transactTime else ∀ t ∈ g.snapshot, t < m.transactTime

/-- What the gate promises of a record: it changes the book in order only, and a record it
    rejects leaves everything as it is. -/
structure GateRight (cfg : FeedCfg) (ops : PriceOps Px) (s : State Px) (g : Applied) (m : Mbo Px)
    (s' : State Px) : Prop where
  in_order : s'.book ≠ s.book → InOrder g m
  rejected : Reaches cfg ops m → (s.gate m).2 = false → s' = s

/-- The record has a time, no earlier than what is kept of its stream; and one that is late
    repeats that time and the clock of the book, so that writing it down changes nothing. -/
def GateSafe (cfg : FeedCfg) (ops : PriceOps Px) (s : State Px) : Event Px → Prop
  | .mbo m =>
      Reaches cfg ops m →
        m.transactTime ≠ 0 ∧ s.ownTime m ≤ m.transactTime ∧
          (Late s m → s.ownTime m = m.transactTime ∧ s.txtimEpoch = m.transactTime ∧
            s.sendtimEpoch = m.sendingTime)
  | _ => True

instance (s : State Px) (m : Mbo Px) : Decidable (Late s m) :=
  inferInstanceAs (Decidable (ite _ (_ ∧ _) (_ ∧ _)))

instance (cfg : FeedCfg) (ops : PriceOps Px) (s : State Px) : ∀ e, Decidable (GateSafe cfg ops s e)
  | .mbo _ => inferInstanceAs (Decidable (_ → _ ∧ _ ∧ _))
  | .mboTrd _ | .chr | .gap | .eob | .sst _ _ | .other _ | .sim _ _ | .bbboSub _
  | .subscribe _ _ => inferInstanceAs (Decidable True)

/-- The times the gate keeps bound those of the records applied. -/
structure Gated (cfg : FeedCfg) (ops : PriceOps Px) (s : State Px) (g : Applied) : Prop where
  live : ∀ t ∈ g.live, t ≤ s.lastTxTim
  snapshot : ∀ t ∈ g.snapshot, t ≤ s.lastRecoveryTxTim
  seen : s.lastTxTim ≠ 0 ∨ s.lastRecoveryTxTim ≠ 0 → s.firstRecordSeen = true
  held : Held cfg ops s

theorem Gated.of_same {g : Applied} (hg : Gated cfg ops s g) (hsame : SameGate s s')
    (hheld : Held cfg ops s') : Gated cfg ops s' g := by
  obtain ⟨htx, hrec, hseen⟩ := hsame
  refine ⟨?_, ?_, ?_, hheld⟩
  · rw [htx]
    exact hg.live
  · rw [hrec]
    exact hg.snapshot
  · rw [htx, hrec, hseen]
    exact hg.seen

/-- A record that is not late is in order. -/
theorem Gated.inOrder {g : Applied} {m : Mbo Px} (hg : Gated cfg ops s g)
    (htim : m.transactTime ≠ 0) (hlate : ¬ Late s m) : InOrder g m := by
  unfold Late at hlate
  unfold InOrder
  split
  next hrec =>
    rw [if_pos hrec] at hlate
    intro t ht
    have hle := hg.live t ht
    omega
  next hrec =>
    rw [if_neg hrec] at hlate
    intro t ht
    have hle := hg.snapshot t ht
    omega

theorem firstRecord_times (cfg : FeedCfg) (s : State Px) (txTime : ℕ) (isSst : Bool) :
    (s.firstRecord cfg txTime isSst).lastTxTim = s.lastTxTim ∧
      (s.firstRecord cfg txTime isSst).lastRecoveryTxTim = s.lastRecoveryTxTim ∧
      (s.firstRecordSeen = true → (s.firstRecord cfg txTime isSst).firstRecordSeen = true) ∧
      (txTime ≠ 0 → (s.firstRecord cfg txTime isSst).firstRecordSeen = true) := by
  unfold State.firstRecord
  split
  next hseen => exact ⟨rfl, rfl, id, fun htim => hseen.resolve_right htim⟩
  · exact ⟨rfl, rfl, fun _ => rfl, fun _ => rfl⟩

/-! ### Runs -/

/-- A late record that repeats what is held changes nothing. -/
theorem Gated.rejected_same {g : Applied} {m : Mbo Px} (hg : Gated cfg ops s g)
    (htim : m.transactTime ≠ 0) (hlate : Late s m) (hown : s.ownTime m = m.transactTime)
    (htx : s.txtimEpoch = m.transactTime) (hsend : s.sendtimEpoch = m.sendingTime) :
    (((s.firstRecord cfg m.transactTime false).stamped m).gate m).1 = s := by
  have hseen : s.firstRecordSeen = true := by
    apply hg.seen
    unfold Late at hlate
    split at hlate
    · exact .inl hlate.1
    · exact .inr hlate.1
  have hfirst : s.firstRecord cfg m.transactTime false = s := by
    unfold State.firstRecord
    exact if_pos (.inl hseen)
  have hstamped : s.stamped m = s := by
    unfold State.stamped
    rw [← htx, ← hsend]
  rw [hfirst, hstamped, gate_fst htim]
  unfold State.ownTime at hown
  split
  next hrec =>
    rw [if_pos hrec] at hown
    rw [← hown]
  next hrec =>
    rw [if_neg hrec] at hown
    rw [← hown]

/-- A record that passes becomes the latest of its stream. -/
theorem Gated.passed {g : Applied} {m : Mbo Px} (hg : Gated cfg ops s g)
    (hreaches : Reaches cfg ops m) (hpass : (s.gate m).2 = true) (htim : m.transactTime ≠ 0)
    (hown : s.ownTime m ≤ m.transactTime) :
    Gated cfg ops (((s.firstRecord cfg m.transactTime false).stamped m).gate m).1
      (noteApplied cfg ops s (.mbo m) g) := by
  obtain ⟨htx, hrectx, hseen, hseen'⟩ := firstRecord_times cfg s m.transactTime false
  have hheld := (hg.held.of_same (firstRecord_sameHeld cfg s m.transactTime false)).of_same
    (gate_sameHeld _ m)
  rw [noteApplied_of_passes ⟨hreaches, hpass⟩]
  unfold State.ownTime at hown
  rw [gate_fst htim] at hheld ⊢
  split
  next hrec =>
    rw [if_pos hrec] at hown
    rw [if_pos hrec] at hheld
    refine ⟨?_, ?_, fun _ => hseen' htim, hheld⟩
    · intro t ht
      exact htx ▸ hg.live t ht
    · intro t ht
      rcases List.mem_cons.mp ht with rfl | ht
      · exact le_rfl
      · exact (hg.snapshot t ht).trans hown
  next hrec =>
    rw [if_neg hrec] at hown
    rw [if_neg hrec] at hheld
    refine ⟨?_, ?_, fun _ => hseen' htim, hheld⟩
    · intro t ht
      rcases List.mem_cons.mp ht with rfl | ht
      · exact le_rfl
      · exact (hg.live t ht).trans hown
    · intro t ht
      exact hrectx ▸ hg.snapshot t ht

theorem Gated.firstRecord {g : Applied} (hg : Gated cfg ops s g) (txTime : ℕ) (isSst : Bool) :
    Gated cfg ops (s.firstRecord cfg txTime isSst) g := by
  obtain ⟨htx, hrectx, hseen, -⟩ := firstRecord_times cfg s txTime isSst
  refine ⟨?_, ?_, ?_, hg.held.of_same (firstRecord_sameHeld cfg s txTime isSst)⟩
  · rw [htx]
    exact hg.live
  · rw [hrectx]
    exact hg.snapshot
  · rw [htx, hrectx]
    exact fun h => hseen (hg.seen h)

theorem gate_stamped_snd (s : State Px) (m : Mbo Px) :
    (((s.firstRecord cfg m.transactTime false).stamped m).gate m).2 = (s.gate m).2 := by
  obtain ⟨htx, hrectx, -, -⟩ := firstRecord_times cfg s m.transactTime false
  exact gate_passes_congr m htx hrectx

/-- A book record that gets through keeps the bounds, and the gate does what it is for. -/
theorem mbo_gated {g : Applied} {m : Mbo Px} {o : List Sent} (hg : Gated cfg ops s g)
    (hsafe : GateSafe cfg ops s (.mbo m)) (h : handle cfg ops s (.mbo m) = some (s', o)) :
    Gated cfg ops s' (noteApplied cfg ops s (.mbo m) g) ∧ GateRight cfg ops s g m s' := by
  have hmbo : (s.firstRecord cfg m.transactTime false).onMbo cfg ops m = some (s', o) := h
  rcases onMbo_cases hmbo with ⟨hnot, ⟨t, t', rfl⟩, -⟩ | ⟨hreaches, hrej, rfl, -⟩ |
    ⟨hreaches, hpass, s₁, o₁, o₂, htrack, happly, -⟩
  · -- it does not get to the gate
    have hfirst := hg.firstRecord m.transactTime false
    rw [noteApplied_of_not fun happ => hnot happ.1]
    refine ⟨hfirst.of_same ⟨rfl, rfl, rfl⟩ (hfirst.held.of_same ⟨rfl, rfl⟩), ?_, ?_⟩
    · exact fun hne => absurd (firstRecord_book cfg s m.transactTime false) hne
    · exact fun hreaches => absurd hreaches hnot
  · -- it is rejected
    obtain ⟨htim, -, hlate⟩ := hsafe hreaches
    rw [gate_stamped_snd] at hrej
    have hlate' := (gate_snd htim).mp hrej
    obtain ⟨hown, htx, hsend⟩ := hlate hlate'
    rw [hg.rejected_same htim hlate' hown htx hsend]
    rw [noteApplied_of_not fun happ => by rw [hrej] at happ; exact Bool.false_ne_true happ.2]
    exact ⟨hg, fun hne => absurd rfl hne, fun _ _ => rfl⟩
  · -- it is applied
    obtain ⟨htim, hown, -⟩ := hsafe hreaches
    rw [gate_stamped_snd] at hpass
    have hlate : ¬ Late s m := by
      intro hlate
      rw [(gate_snd htim).mpr hlate] at hpass
      cases hpass
    have hgated := hg.passed hreaches hpass htim hown
    obtain ⟨acts, htracked, hclears, hs₁, -⟩ := trackRecovery_path hgated.held htrack
    obtain ⟨acts', hrounds, hs', -⟩ := applyMbo_rounds hs₁ rfl hreaches.not_new happly
    have hgate₁ := htracked.sameGate fun a ha => .inr (hclears a ha)
    have hgate₂ := hrounds.1.sameGate fun a ha => .inl (hrounds.2 a ha)
    refine ⟨hgated.of_same (hgate₁.trans hgate₂) hs', fun _ => hg.inOrder htim hlate, ?_⟩
    intro _ hrej
    rw [hpass] at hrej
    cases hrej

/-- A channel reset forgets the times. -/
theorem chr_gated {o : List Sent} {g : Applied} (hg : Gated cfg ops s g)
    (h : s.onControl cfg .clear = some (s', o)) : Gated cfg ops s' {} := by
  refine ⟨fun t ht => (List.not_mem_nil ht).elim, fun t ht => (List.not_mem_nil ht).elim, ?_,
    onControl_held hg.held (.inl rfl) h⟩
  obtain ⟨s₁, s₂, o₁, o₂, -, hcall, hpoint, -⟩ := processMarketData_stages h
  obtain ⟨htx, hrectx, -⟩ := keepPoint_sameGate hpoint
  cases processAddOrMod_cases hcall with
  | clear _ hclear =>
      obtain ⟨htx', hrectx', -⟩ := clear_sameGate hclear
      rw [htx, hrectx, htx', hrectx']
      rintro (hne | hne) <;> exact absurd rfl hne
  | call hmev => exact absurd rfl (order_ne_clear hmev)
  | burst hmev => cases hmev
  | gap hmev => cases hmev
  | nothing _ _ hmev => exact absurd rfl hmev

/-- A gap and an end of burst leave the gate alone. -/
theorem control_sameGate {mev : Md} {o : List Sent} (hmev : mev ≠ .clear)
    (h : s.onControl cfg mev = some (s', o)) : SameGate s s' :=
  processMarketData_sameGate hmev h

/-- **One message.** -/
theorem handle_gated {e : Event Px} {o : List Sent} {g : Applied} (hg : Gated cfg ops s g)
    (hsafe : GateSafe cfg ops s e) (h : handle cfg ops s e = some (s', o)) :
    Gated cfg ops s' (noteApplied cfg ops s e g) := by
  obtain ⟨-, -, hheld, -⟩ := handle_path hg.held h
  cases e with
  | mbo m => exact (mbo_gated hg hsafe h).1
  | mboTrd t =>
      have hfirst := hg.firstRecord t.transactTime false
      obtain ⟨acts, hrounds, hs', -⟩ := onTrd_rounds hfirst.held h
      exact hfirst.of_same (hrounds.1.sameGate fun a ha => .inl (hrounds.2 a ha)) hs'
  | chr => exact chr_gated hg h
  | gap => exact hg.of_same (control_sameGate (by decide) h) hheld
  | eob => exact hg.of_same (control_sameGate (by decide) h) hheld
  | sst txtim tradingStatus =>
      cases h
      exact (hg.firstRecord txtim true).of_same ⟨rfl, rfl, rfl⟩ hheld
  | other txTime =>
      cases h
      exact hg.firstRecord txTime false
  | sim p sender =>
      refine hg.of_same ?_ hheld
      obtain ⟨-, ⟨-, happly⟩ | ⟨-, -, rfl⟩⟩ := onSim_cases h
      · exact processMarketData_sameGate (order_ne_clear (s.timed p).mev_eq) happly
      · exact ⟨rfl, rfl, rfl⟩
  | bbboSub sender =>
      cases h
      exact hg.of_same ⟨rfl, rfl, rfl⟩ hheld
  | subscribe hi sender =>
      refine hg.of_same ?_ hheld
      obtain ⟨-, -, rfl | rfl⟩ := subscribe_cases h <;> exact ⟨rfl, rfl, rfl⟩

theorem gated_new (cfg : FeedCfg) (ops : PriceOps Px) : Gated cfg ops (State.new Px cfg) {} where
  live t ht := (List.not_mem_nil ht).elim
  snapshot t ht := (List.not_mem_nil ht).elim
  seen h := by rcases h with h | h <;> exact absurd rfl h
  held :=
    { ladder := fun i e he => by
        have hnone : (State.new Px cfg).ordermap.lookup i = none := AList.lookup_empty i
        rw [hnone] at he
        cases he
      execs := execsOnly_new _ }

/-- The book with the times that were applied. -/
abbrev gatedStep (cfg : FeedCfg) (ops : PriceOps Px) :=
  withGhost (handle cfg ops) (noteApplied cfg ops)

/-- **The gate does what it is for** in every run whose records each have a time, no earlier
    than what is kept of their stream, and repeat what is held when they are late. -/
theorem gate_right {es : List (Event Px)} {g : Applied} {out : List Sent}
    (hrun : run (gatedStep cfg ops) (State.new Px cfg, {}) es = some ((s, g), out))
    (hsafe : AllSteps (gatedStep cfg ops) (fun sg e => GateSafe cfg ops sg.1 e)
      (State.new Px cfg, {}) es)
    {m : Mbo Px} {o : List Sent} (hm : GateSafe cfg ops s (.mbo m))
    (h : handle cfg ops s (.mbo m) = some (s', o)) : GateRight cfg ops s g m s' := by
  have hg : Gated cfg ops s g := by
    refine run_induction (I := fun _ _ sg => Gated cfg ops sg.1 sg.2) (gated_new cfg ops) ?_
      hsafe hrun
    rintro _ _ ⟨s, g⟩ e ⟨s', g'⟩ o hg hsafe hstep
    obtain ⟨hs, rfl⟩ := withGhost_eq_some.mp hstep
    exact handle_gated hg hsafe hs
  exact (mbo_gated hg hm h).2

/-! ### Two runs -/

/-- A live order, a snapshot that re-sends it, and a later live one. -/
def gateRecords : List (Event ℤ) :=
  [bidOfFive 300 0 1 10 false, bidOfFive 400 0 1 10 true, bidOfFive 500 0 2 11 false]

/-- A record after the snapshot. -/
def laterRecord : Mbo ℤ where
  venue := 1
  transactTime := 600
  sendingTime := 600
  orderUpdateAction := 2
  securityID := 1
  orderID := 2
  pxd := 11
  displayQty := 0
  displayQty_lt := by decide
  side := '0'
  endOfEvent := true
  recovery := false

theorem gate_right_later :
    ∃ s g out s' o, run (gatedStep simulCfg tickOps) (State.new ℤ simulCfg, {}) gateRecords =
        some ((s, g), out) ∧ g.snapshot = [400] ∧
      handle simulCfg tickOps s (.mbo laterRecord) = some (s', o) ∧
      GateRight simulCfg tickOps s g laterRecord s' := by
  have hrun : (run (gatedStep simulCfg tickOps) (State.new ℤ simulCfg, {}) gateRecords).bind
      (fun r => (handle simulCfg tickOps r.1.1 (.mbo laterRecord)).map fun _ => r.1.2.snapshot) =
      some [400] := by
    decide +kernel
  have hsafe : AllSteps (gatedStep simulCfg tickOps)
      (fun sg e => GateSafe simulCfg tickOps sg.1 e) (State.new ℤ simulCfg, {})
      (gateRecords ++ [.mbo laterRecord]) := by decide +kernel
  obtain ⟨⟨⟨s, g⟩, out⟩, hrun, hrest⟩ := Option.bind_eq_some_iff.mp hrun
  obtain ⟨⟨s', o⟩, hs, hsnap⟩ := Option.map_eq_some_iff.mp hrest
  obtain ⟨hsafe, hlast⟩ := allSteps_append.mp hsafe
  obtain ⟨hm, -⟩ := allSteps_cons.mp (hlast _ _ hrun)
  exact ⟨s, g, out, s', o, hrun, hsnap, hs, gate_right hrun hsafe hm hs⟩

/-- A live record that a snapshot makes late, between two times of its own stream. -/
def overtaken : List (Event ℤ) :=
  [bidOfFive 300 0 1 10 false, bidOfFive 400 0 2 11 true, bidOfFive 100 0 3 12 false]

/-- A snapshot record older than a live record that was applied. -/
def staleRecord : Mbo ℤ where
  venue := 1
  transactTime := 200
  sendingTime := 200
  orderUpdateAction := 0
  securityID := 1
  orderID := 4
  pxd := 13
  displayQty := 6
  displayQty_lt := by decide
  side := '0'
  endOfEvent := true
  recovery := true

/-- The live record is rejected but lowers the time kept, and the stale snapshot record then
    reaches the book. -/
theorem not_gate_right :
    ¬ ∀ (es : List (Event ℤ)) (s : State ℤ) (g : Applied) (out : List Sent) (m : Mbo ℤ)
        (s' : State ℤ) (o : List Sent),
        run (gatedStep simulCfg tickOps) (State.new ℤ simulCfg, {}) es = some ((s, g), out) →
        handle simulCfg tickOps s (.mbo m) = some (s', o) →
        GateRight simulCfg tickOps s g m s' := by
  intro hall
  have hrun : (run (gatedStep simulCfg tickOps) (State.new ℤ simulCfg, {}) overtaken).bind
      (fun r => (handle simulCfg tickOps r.1.1 (.mbo staleRecord)).map
        fun r' => (r.1.2.live, (r.1.1.book.bidqs 13).length, (r'.1.book.bidqs 13).length)) =
      some ([300], 0, 1) := by
    decide +kernel
  obtain ⟨⟨⟨s, g⟩, out⟩, hrun, hrest⟩ := Option.bind_eq_some_iff.mp hrun
  obtain ⟨⟨s', o⟩, hs, hval⟩ := Option.map_eq_some_iff.mp hrest
  simp only [Prod.mk.injEq] at hval
  obtain ⟨hlive, hbefore, hafter⟩ := hval
  have hright := hall _ s g out staleRecord s' o hrun hs
  have hchanged : s'.book ≠ s.book := by
    intro hsame
    rw [hsame, hbefore] at hafter
    cases hafter
  have hin := hright.in_order hchanged
  have hle : (300 : ℕ) ≤ 200 := hin 300 (by rw [hlive]; exact List.mem_singleton.mpr rfl)
  omega

end KasparHft.OB
