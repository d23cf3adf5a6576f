import KasparHft.FillSlateConservation
import KasparHft.OrderBookResting
import KasparHft.OrderBookSteps

/-!
# What a payload does to the exchange's orders

A payload of the feed acts on the exchange's orders by `Pl.effect`.  Everything else that
`process_q` sets off leaves them alone: our own orders that are let through, the executions
a slate releases, what is told and published.
-/

namespace KasparHft.OB

open AssocMap FillSlate Machine

variable {Px : Type} {cfg : FeedCfg} {ops : PriceOps Px} {s s' : State Px}

/-! ### Frames -/

/-- The exchange's orders become `rest`; the map, the slate and the id counter stay, and no
    order of ours is queued. -/
structure Becomes (s : State Px) (rest : Side × ℤ → List (LongId × ℤ)) (s' : State Px) :
    Prop where
  ordermap : s'.ordermap = s.ordermap
  execSlate : s'.execSlate = s.execSlate
  bookoid : s'.bookoid = s.bookoid
  delQ : ∀ p ∈ s'.delQ, p ∈ s.delQ
  resting : s'.book.resting = rest

/-- The exchange's orders stay. -/
abbrev Kept (s s' : State Px) : Prop := Becomes s s.book.resting s'

theorem Kept.refl (s : State Px) : Kept s s := ⟨rfl, rfl, rfl, fun _ hp => hp, rfl⟩

theorem Becomes.trans {s₁ : State Px} {rest rest' : Side × ℤ → List (LongId × ℤ)}
    (h : Becomes s rest s₁) (h' : Becomes s₁ rest' s') : Becomes s rest' s' where
  ordermap := h'.ordermap.trans h.ordermap
  execSlate := h'.execSlate.trans h.execSlate
  bookoid := h'.bookoid.trans h.bookoid
  delQ := fun p hp => h.delQ p (h'.delQ p hp)
  resting := h'.resting

theorem Becomes.kept {s₁ : State Px} {rest : Side × ℤ → List (LongId × ℤ)}
    (h : Becomes s rest s₁) (h' : Kept s₁ s') : Becomes s rest s' :=
  h.resting ▸ h.trans h'

theorem handleEoburst_kept {pl : Pl} {o : List Sent} (h : s.handleEoburst cfg pl = (s', o)) :
    Kept s s' := by
  obtain rfl : (s.handleEoburst cfg pl).1 = s' := congrArg Prod.fst h
  unfold State.handleEoburst
  split
  · exact Kept.refl s
  · exact ⟨rfl, rfl, rfl, fun _ hp => hp, rfl⟩

theorem checkCross_kept {pl : Pl} (h : s.checkCross cfg pl = some s') : Kept s s' := by
  have hxcheck : Kept s
      (if pl.isSim = false ∧ s.xcheckTx < pl.tim then { s with xcheckTx := pl.tim } else s) := by
    split
    · exact ⟨rfl, rfl, rfl, fun _ hp => hp, rfl⟩
    · exact Kept.refl s
  unfold State.checkCross at h
  dsimp only at h
  split at h
  · split at h
    · cases h
    · cases h
      exact ⟨hxcheck.ordermap, hxcheck.execSlate, hxcheck.bookoid, hxcheck.delQ, rfl⟩
  · cases h
    exact hxcheck

theorem keepPoint_kept {pl : Pl} {o : List Sent} (h : s.keepPoint cfg pl = some (s', o)) :
    Kept s s' := by
  unfold State.keepPoint at h
  split at h
  · cases h
    exact Kept.refl s
  · split at h
    · cases h
    · dsimp only at h
      split at h
      · cases h
        exact ⟨rfl, rfl, rfl, fun _ hp => hp, rfl⟩
      · cases h
        exact ⟨rfl, rfl, rfl, fun _ hp => hp, rfl⟩

/-! ### What a payload does -/

/-- What a payload does to the exchange's orders. -/
def Pl.effect (pl : Pl) (rest : Side × ℤ → List (LongId × ℤ)) :
    Side × ℤ → List (LongId × ℤ) :=
  let l := (pl.side, pl.px)
  if pl.mev = .add then Function.update rest l (rest l ++ [(pl.orderRef, pl.sz)])
  else if pl.action = .cancd then
    Function.update rest l ((rest l).filter fun x => x.1 ≠ pl.orderRef)
  else if pl.action = .canc then
    Function.update rest l
      ((rest l).map fun x => if x.1 = pl.orderRef then (x.1, pl.dispSz) else x)
  else rest

/-- An execution. -/
def Pl.IsExec (pl : Pl) : Prop := pl.mev = .mod ∧ pl.action = .exec

/-- The payloads of the feed: an add, an execution, a reduction, a delete; all but an
    execution are priced on the ladder. -/
def Pl.Handled (cfg : FeedCfg) (pl : Pl) : Prop :=
  pl.IsExec ∨ pl.px < cfg.maxprice ∧
    (pl.mev = .add ∨ pl.mev = .mod ∧ (pl.action = .canc ∨ pl.action = .cancd))

theorem Pl.IsExec.effect {pl : Pl} (h : pl.IsExec) (rest : Side × ℤ → List (LongId × ℤ)) :
    pl.effect rest = rest := by
  simp [Pl.effect, h.1, h.2]

theorem Pl.Handled.mev {pl : Pl} (h : pl.Handled cfg) : pl.mev = .add ∨ pl.mev = .mod := by
  rcases h with h | ⟨-, h | h⟩
  · exact .inr h.1
  · exact .inl h
  · exact .inr h.1

/-- What a payload that is no add does, in simulation and in live. -/
theorem step_mod_effect {pl : Pl} (hmod : pl.mev = .mod)
    (hact : pl.action = .exec ∨ pl.px < cfg.maxprice ∧ (pl.action = .canc ∨ pl.action = .cancd))
    (hreal : pl.isSim = false) {currtim : ℕ} {b b' : Book} {n : List Note}
    (h : step cfg.toCfg b (pl.call currtim none) = some (b', n)) :
    b'.resting = pl.effect b.resting := by
  simp only [Pl.call, hmod] at h
  rcases hact with hexec | ⟨hpx, hcanc | hcancd⟩
  · rw [Pl.IsExec.effect ⟨hmod, hexec⟩]
    refine exec_resting ?_ ?_ h
    · exact hreal
    · exact hexec
  · simp only [Pl.effect, hmod, hcanc, reduceCtorEq, if_false, if_true]
    refine canc_resting ?_ ?_ ?_ h
    · exact hreal
    · exact hpx
    · exact hcanc
  · simp only [Pl.effect, hmod, hcancd, reduceCtorEq, if_false, if_true]
    refine cancd_resting ?_ ?_ ?_ h
    · exact hreal
    · exact hpx
    · exact hcancd

theorem step_effect {pl : Pl} (hsimul : cfg.doCrossCheck = true) (hpl : pl.Handled cfg)
    (hreal : pl.isSim = false) {currtim : ℕ} {b b' : Book} {n : List Note}
    (h : step cfg.toCfg b (pl.call currtim none) = some (b', n)) :
    b'.resting = pl.effect b.resting := by
  rcases hpl with hexec | ⟨hpx, hadd | ⟨hmod, hact⟩⟩
  · exact step_mod_effect hexec.1 (.inl hexec.2) hreal h
  · simp only [Pl.call, hadd] at h
    simp only [Pl.effect, hadd, if_true]
    refine add_resting hsimul ?_ ?_ h
    · exact hreal
    · exact hpx
  · exact step_mod_effect hmod (.inr ⟨hpx, hact⟩) hreal h

theorem processAddOrMod_becomes {pl : Pl} {sender : Option ℕ} {o : List Sent}
    (hmev : pl.mev = .add ∨ pl.mev = .mod)
    (h : s.processAddOrMod cfg pl sender = some (s', o)) :
    ∃ b n, step cfg.toCfg s.book (pl.call s.currtim sender) = some (b, n) ∧
      Becomes s b.resting s' := by
  cases processAddOrMod_cases h with
  | @call b n _ _ _ _ hstep hburst =>
      refine ⟨b, n, hstep, Becomes.kept ?_ (handleEoburst_kept hburst)⟩
      exact ⟨rfl, rfl, rfl, fun _ hp => hp, rfl⟩
  | burst hburst => simp [hburst] at hmev
  | clear hclear => simp [hclear] at hmev
  | gap hgap => simp [hgap] at hmev
  | nothing hnot => exact absurd hmev hnot

/-- Around `process_add_or_mod` nothing happens to the orders. -/
theorem processMarketData_parts {pl : Pl} {sender : Option ℕ} {o : List Sent}
    (h : s.processMarketData cfg pl sender = some (s', o)) :
    ∃ s₁ s₂ o₁, Kept s s₁ ∧ s₁.processAddOrMod cfg pl sender = some (s₂, o₁) ∧ Kept s₂ s' := by
  obtain ⟨s₁, s₂, o₁, o₂, hcheck, hcall, hpoint, -⟩ := processMarketData_stages h
  have hdrained : Kept s (s.drained pl).1 := by
    unfold State.drained
    split
    · exact ⟨rfl, rfl, rfl, fun _ hp => hp, rfl⟩
    · exact Kept.refl s
  exact ⟨s₁, s₂, o₁, hdrained.kept (checkCross_kept hcheck), hcall, keepPoint_kept hpoint⟩

/-- A channel reset clears; a gap and an end of burst leave the orders alone. -/
theorem onControl_cases {mev : Md} {o : List Sent}
    (hmev : mev = .clear ∨ mev = .gap ∨ mev = .eoburst)
    (h : s.onControl cfg mev = some (s', o)) :
    (mev = .clear ∧ ∃ s₁ s₂ o₁, Kept s s₁ ∧ s₁.clear cfg = some (s₂, o₁) ∧ Kept s₂ s') ∨
      (mev ≠ .clear ∧ Kept s s') := by
  obtain ⟨s₁, s₂, o₁, hbefore, hcall, hafter⟩ := processMarketData_parts h
  cases processAddOrMod_cases hcall with
  | call horder =>
      dsimp only at horder
      rcases hmev with rfl | rfl | rfl <;> simp at horder
  | burst hburst hkeeps =>
      refine .inr ⟨?_, (hbefore.kept (handleEoburst_kept hkeeps)).kept hafter⟩
      rintro rfl
      cases hburst
  | clear hclear hcleared =>
      refine .inl ⟨hclear, { s₁ with lastTxTim := 0, lastRecoveryTxTim := 0 }, s₂, o₁, ?_,
        hcleared, hafter⟩
      exact hbefore.kept ⟨rfl, rfl, rfl, fun _ hp => hp, rfl⟩
  | gap hgap =>
      refine .inr ⟨?_, hbefore.kept hafter⟩
      rintro rfl
      cases hgap
  | nothing _ _ hclear => exact .inr ⟨hclear, hbefore.kept hafter⟩

/-- A payload is applied to a book with the same orders of the exchange. -/
theorem processMarketData_becomes {pl : Pl} {sender : Option ℕ} {o : List Sent}
    (hmev : pl.mev = .add ∨ pl.mev = .mod)
    (h : s.processMarketData cfg pl sender = some (s', o)) :
    ∃ b currtim b' n, b.resting = s.book.resting ∧
      step cfg.toCfg b (pl.call currtim sender) = some (b', n) ∧ Becomes s b'.resting s' := by
  obtain ⟨s₁, s₂, o₁, hbefore, hcall, hafter⟩ := processMarketData_parts h
  obtain ⟨b, n, hstep, hbec⟩ := processAddOrMod_becomes hmev hcall
  exact ⟨s₁.book, s₁.currtim, b, n, hbefore.resting, hstep, (hbefore.trans hbec).kept hafter⟩

theorem isRealCall_call (currtim : ℕ) (sender : Option ℕ) (pl : Pl) :
    isRealCall (pl.call currtim sender) = !pl.isSim := by
  unfold Pl.call
  split <;> rfl

/-- One of our own orders changes no order of the exchange. -/
theorem processMarketData_sim {p : SimPl} {sender : Option ℕ} {o : List Sent}
    (hsim : p.isSim = true) (h : s.processMarketData cfg p.toPl sender = some (s', o)) :
    Kept s s' := by
  obtain ⟨b, currtim, b', n, hb, hstep, hbec⟩ := processMarketData_becomes p.mev_eq h
  have hproj := step_noSims hstep
  rw [isRealCall_call, hsim, Bool.not_true, if_neg Bool.false_ne_true] at hproj
  rw [resting_congr hproj, hb] at hbec
  exact hbec

/-- The orders of ours that a record lets through change no order of the exchange. -/
theorem popDelQ_kept {s₀ : State Px} {tim : ℕ} {q : List (SimPl × Option ℕ)} {o : List Sent}
    (hq : ∀ p ∈ q, p ∈ s₀.delQ ∧ p.1.isSim = true) (hs : Kept s₀ s)
    (h : popDelQ cfg tim q s = some (s', o)) : Kept s₀ s' := by
  have hset : ∀ {s : State Px} (q' : List (SimPl × Option ℕ)), Kept s₀ s →
      (∀ p ∈ q', p ∈ s₀.delQ) → Kept s₀ { s with delQ := q' } := fun q' hs hq' =>
    ⟨hs.ordermap, hs.execSlate, hs.bookoid, hq', hs.resting⟩
  induction q generalizing s o with
  | nil =>
      cases h
      exact hset [] hs fun p hp => (List.not_mem_nil hp).elim
  | cons p q ih =>
      obtain ⟨hp, hq'⟩ := List.forall_mem_cons.mp hq
      unfold popDelQ at h
      split at h
      · cases h
      · split at h
        · obtain ⟨s₁, o₁, o₂, happly, hrest, -⟩ := andThen_some h
          exact ih hq' (hs.kept (processMarketData_sim hp.2 happly)) hrest
        · cases h
          exact hset _ hs fun p' hp' => (hq p' hp').1

/-- **A payload of the feed does what it says** to the exchange's orders, and nothing else. -/
theorem processQ_becomes {pl : Pl} {o : List Sent} (hsimul : cfg.doCrossCheck = true)
    (hpl : pl.Handled cfg) (hpos : pl.IsExec ∨ 0 < pl.px)
    (h : s.processQ cfg pl = some (s', o)) (hsims : ∀ p ∈ s.delQ, p.1.isSim = true) :
    (pl.IsExec ∨ pl.isSim = false) ∧ Becomes s (pl.effect s.book.resting) s' := by
  rcases processQ_cases h with ⟨hpx, rfl, -⟩ | ⟨-, hreal, t, s₁, o₁, o₂, hpop, happly, -⟩
  · rcases hpos with hexec | hpos
    · refine ⟨.inl hexec, ?_⟩
      rw [hexec.effect]
      exact Kept.refl s'
    · omega
  · have hpopped : Kept s s₁ :=
      popDelQ_kept (s := { s with lastProcessedTs := t }) (fun p hp => ⟨hp, hsims p hp⟩)
        ⟨rfl, rfl, rfl, fun _ hp => hp, rfl⟩ hpop
    obtain ⟨b, currtim, b', n, hb, hstep, hbec⟩ := processMarketData_becomes hpl.mev happly
    refine ⟨.inr hreal, ?_⟩
    rw [step_effect hsimul hpl hreal hstep, hb, hpopped.resting] at hbec
    exact hpopped.trans hbec

/-! ### Executions -/

/-- The slate holds executions. -/
structure ExecsOnly (slate : Slate Px Pl) : Prop where
  inv : slate.Inv
  execs : ∀ t ∈ slate.unreleased, t.pl.IsExec

theorem execsOnly_new (mode : Release) : ExecsOnly (Slate.new mode : Slate Px Pl) where
  inv := inv_new mode
  execs t ht := by
    rw [unreleased_of_fills_nil rfl] at ht
    exact (Multiset.notMem_zero t ht).elim

theorem execsOnly_clear (slate : Slate Px Pl) : ExecsOnly slate.clear where
  inv := clear_inv slate
  execs t ht := by
    rw [unreleased_of_fills_nil (clear_fills slate)] at ht
    exact (Multiset.notMem_zero t ht).elim

theorem ExecsOnly.balanced {slate slate' : Slate Px Pl} {added : Multiset (Trade Px Pl)}
    {o : List (Released Px Pl)} (h : ExecsOnly slate) (hbal : Balanced slate added slate' o)
    (hadded : ∀ t ∈ added, t.pl.IsExec) :
    ExecsOnly slate' ∧ ∀ f ∈ o, f.fill.pl.IsExec := by
  obtain ⟨hheld, hout⟩ := hbal.forall h.execs hadded
  exact ⟨⟨hbal.inv, hheld⟩, hout⟩

theorem ExecsOnly.onBook {slate : Slate Px Pl} (h : ExecsOnly slate) (samePx : Px → Px → Bool)
    (oid tx action : ℕ) (px : Px) : ExecsOnly (slate.onBook samePx oid tx action px).1 ∧
      ∀ f ∈ (slate.onBook samePx oid tx action px).2, f.fill.pl.IsExec :=
  h.balanced (onBook_balanced h.inv samePx oid tx action px).1
    fun t ht => (Multiset.notMem_zero t ht).elim

theorem ExecsOnly.advance {slate : Slate Px Pl} (h : ExecsOnly slate) (tx : ℕ) :
    ExecsOnly (slate.advance tx).1 ∧ ∀ f ∈ (slate.advance tx).2, f.fill.pl.IsExec :=
  h.balanced (advance_balanced h.inv tx).1 fun t ht => (Multiset.notMem_zero t ht).elim

/-- What a trade record puts on the slate is an execution. -/
theorem ExecsOnly.onTrade (h : ExecsOnly s.execSlate) {t : MboTrd} {trade : Trade Px Pl}
    (htrade : s.slated ops t = some trade) : ExecsOnly (s.execSlate.onTrade trade).1 ∧
      ∀ f ∈ (s.execSlate.onTrade trade).2, f.fill.pl.IsExec := by
  refine h.balanced (onTrade_balanced h.inv trade).1 ?_
  intro t' ht'
  rw [Multiset.mem_singleton.mp ht']
  unfold State.slated at htrade
  split at htrade
  · cases htrade
  · cases htrade
    exact ⟨rfl, rfl⟩

theorem releaseExec_kept {f : Released Px Pl} {o : List Sent}
    (hsimul : cfg.doCrossCheck = true) (hf : f.fill.pl.IsExec)
    (h : s.releaseExec cfg f = some (s', o)) (hsims : ∀ p ∈ s.delQ, p.1.isSim = true) :
    Kept s s' := by
  rcases releaseExec_cases h with ⟨rfl, -⟩ | ⟨s₁, hq, rfl⟩
  · exact Kept.refl s'
  · have hbec := (processQ_becomes hsimul (.inl hf) (.inl hf) hq hsims).2
    rw [hf.effect] at hbec
    exact ⟨hbec.ordermap, hbec.execSlate, hbec.bookoid, hbec.delQ, hbec.resting⟩

/-- Executions that are released change no order of the exchange. -/
theorem releaseExecs_kept {fs : List (Released Px Pl)} {o : List Sent}
    (hsimul : cfg.doCrossCheck = true) (hfs : ∀ f ∈ fs, f.fill.pl.IsExec)
    (h : releaseExecs cfg fs s = some (s', o)) (hsims : ∀ p ∈ s.delQ, p.1.isSim = true) :
    Kept s s' := by
  induction fs generalizing s o with
  | nil =>
      cases h
      exact Kept.refl _
  | cons f fs ih =>
      obtain ⟨hf, hfs⟩ := List.forall_mem_cons.mp hfs
      obtain ⟨s₁, o₁, o₂, hone, hrest, -⟩ := andThen_some h
      have hkept := releaseExec_kept hsimul hf hone hsims
      exact hkept.kept (ih hfs hrest fun p hp => hsims p (hkept.delQ p hp))

/-- The record's own payload is applied after the executions it releases. -/
theorem processSlatedExec_becomes {m : Mbo Px} {pl : Pl} {o : List Sent}
    (hsimul : cfg.doCrossCheck = true) (hpl : pl.Handled cfg) (hpos : 0 < pl.px)
    (h : s.processSlatedExec cfg ops m pl = some (s', o))
    (hsims : ∀ p ∈ s.delQ, p.1.isSim = true) (hslate : ExecsOnly s.execSlate) :
    ∃ slate, ExecsOnly slate ∧
      Becomes { s with execSlate := slate } (pl.effect s.book.resting) s' := by
  obtain ⟨s₁, o₁, o₂, hrel, hq, -⟩ := processSlatedExec_some h
  obtain ⟨hslate', hexecs⟩ :=
    hslate.onBook ops.samePx m.orderID m.transactTime m.orderUpdateAction m.pxd
  have hkept := releaseExecs_kept hsimul hexecs hrel hsims
  have hbec := (processQ_becomes hsimul hpl (.inr hpos) hq
    fun p hp => hsims p (hkept.delQ p hp)).2
  rw [hkept.resting] at hbec
  exact ⟨_, hslate', hkept.trans hbec⟩

end KasparHft.OB
