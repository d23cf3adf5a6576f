import KasparHft.OrderBookHandler

/-!
# What each function of the handler can do

One inversion lemma for each function that `data_handler` calls: when it returns, the state and
the messages are those of one of its branches, under the branch's guards.  The results on the
handler start from these and do not unfold a function again.
-/

namespace KasparHft.OB

open AssocMap FillSlate

variable {Px : Type} {cfg : FeedCfg} {ops : PriceOps Px} {s s' : State Px} {o : List Sent}

theorem andThen_some {r : Option (State Px × List Sent)}
    {f : State Px → Option (State Px × List Sent)} (h : andThen r f = some (s', o)) :
    ∃ s₁ o₁ o₂, r = some (s₁, o₁) ∧ f s₁ = some (s', o₂) ∧ o = o₁ ++ o₂ := by
  obtain ⟨⟨s₁, o₁⟩, hr, h⟩ := Option.bind_eq_some_iff.mp h
  obtain ⟨⟨s₂, o₂⟩, hf, heq⟩ := Option.map_eq_some_iff.mp h
  cases heq
  exact ⟨s₁, o₁, o₂, hr, hf, rfl⟩

/-! ### Payloads -/

/-- `process_add_or_mod`: a call on the book and its notices, an end of burst, a clear, a gap,
    or nothing. -/
inductive AddsOrMods (cfg : FeedCfg) (s : State Px) (pl : Pl) (sender : Option ℕ) :
    State Px → List Sent → Prop
  | call {b : Book} {n : List Note} {s' : State Px} {o : List Sent}
      (hmev : pl.mev = .add ∨ pl.mev = .mod) (hpx : 0 < pl.px)
      (hstep : step cfg.toCfg s.book (pl.call s.currtim sender) = some (b, n))
      (hburst : (State.tell cfg { s with book := b } n).1.handleEoburst cfg pl = (s', o)) :
      AddsOrMods cfg s pl sender s' ((State.tell cfg { s with book := b } n).2 ++ o)
  | burst {s' : State Px} {o : List Sent} (hmev : pl.mev = .eoburst)
      (hburst : s.handleEoburst cfg pl = (s', o)) : AddsOrMods cfg s pl sender s' o
  | clear {s' : State Px} {o : List Sent} (hmev : pl.mev = .clear)
      (hclear : State.clear cfg { s with lastTxTim := 0, lastRecoveryTxTim := 0 } =
        some (s', o)) : AddsOrMods cfg s pl sender s' o
  | gap (hmev : pl.mev = .gap) : AddsOrMods cfg s pl sender s
      ((s.hiprioDatasubs ++ s.lowprioDatasubs).map fun a => ⟨a, .gapDetected⟩)
  | nothing (horder : ¬ (pl.mev = .add ∨ pl.mev = .mod)) (hburst : pl.mev ≠ .eoburst)
      (hclear : pl.mev ≠ .clear) (hgap : pl.mev ≠ .gap) : AddsOrMods cfg s pl sender s []

theorem order_ne_clear {mev : Md} (h : mev = .add ∨ mev = .mod) : mev ≠ .clear := by
  rintro rfl
  rcases h with h | h <;> cases h

theorem processAddOrMod_cases {pl : Pl} {sender : Option ℕ}
    (h : s.processAddOrMod cfg pl sender = some (s', o)) : AddsOrMods cfg s pl sender s' o := by
  unfold State.processAddOrMod at h
  split at h
  · cases h
  · split at h
    next hmev =>
      split at h
      · cases h
      next hok =>
        obtain ⟨⟨b, n⟩, hstep, heq⟩ := Option.map_eq_some_iff.mp h
        cases heq
        exact .call hmev (not_le.mp fun hpx => hok (.inr hpx)) hstep rfl
    next horder =>
      split at h
      next hburst => exact .burst hburst (Option.some.inj h)
      next hburst =>
        split at h
        next hclear => exact .clear hclear h
        next hclear =>
          split at h
          next hgap =>
            cases h
            exact .gap hgap
          next hgap =>
            cases h
            exact .nothing horder hburst hclear hgap

/-- What has waited for the time of the payload is sent first. -/
def State.drained (s : State Px) (pl : Pl) : State Px × List Sent :=
  if pl.txtimEpoch ≠ 0 ∧ pl.isSim = false then
    State.drainPubQ { s with lastProcessedTs := pl.txtimEpoch } pl.txtimEpoch
  else (s, [])

/-- `process_market_data`: drain, check, act, keep the point. -/
theorem processMarketData_stages {pl : Pl} {sender : Option ℕ}
    (h : s.processMarketData cfg pl sender = some (s', o)) :
    ∃ s₁ s₂ o₁ o₂, (s.drained pl).1.checkCross cfg pl = some s₁ ∧
      s₁.processAddOrMod cfg pl sender = some (s₂, o₁) ∧
      s₂.keepPoint cfg pl = some (s', o₂) ∧ o = (s.drained pl).2 ++ o₁ ++ o₂ := by
  unfold State.processMarketData at h
  split at h
  · cases h
  · have hdrained : (if pl.txtimEpoch ≠ 0 ∧ pl.isSim = false then
        State.drainPubQ { s with lastProcessedTs := pl.txtimEpoch } pl.txtimEpoch
      else (s, [])) = s.drained pl := rfl
    rw [hdrained] at h
    obtain ⟨s₂, o₁, o₂, hcalled, hpoint, rfl⟩ := andThen_some h
    obtain ⟨s₁, o₃, o₄, hcross, hcall, rfl⟩ := andThen_some hcalled
    obtain ⟨s₁', hcheck, heq⟩ := Option.map_eq_some_iff.mp hcross
    cases heq
    exact ⟨s₁, s₂, o₄, o₂, hcheck, hcall, hpoint, rfl⟩

/-- `process_q`: nothing at a price of zero or less, else our orders that are due and the
    payload. -/
theorem processQ_cases {pl : Pl} (h : s.processQ cfg pl = some (s', o)) :
    (pl.px ≤ 0 ∧ s' = s ∧ o = []) ∨
      (0 < pl.px ∧ pl.isSim = false ∧ ∃ t s₁ o₁ o₂,
        popDelQ cfg pl.tim s.delQ { s with lastProcessedTs := t } = some (s₁, o₁) ∧
        s₁.processMarketData cfg pl none = some (s', o₂) ∧ o = o₁ ++ o₂) := by
  unfold State.processQ at h
  split at h
  next hpx =>
    cases h
    exact .inl ⟨hpx, rfl, rfl⟩
  next hpx =>
    split at h
    · cases h
    next hreal =>
      refine .inr ⟨not_le.mp hpx, Bool.eq_false_iff.mpr hreal, ?_⟩
      dsimp only at h
      split at h
      · obtain ⟨s₁, o₁, o₂, hpop, happly, rfl⟩ := andThen_some h
        exact ⟨pl.txtimEpoch, s₁, o₁, o₂, hpop, happly, rfl⟩
      · obtain ⟨s₁, o₁, o₂, hpop, happly, rfl⟩ := andThen_some h
        exact ⟨s.lastProcessedTs, s₁, o₁, o₂, hpop, happly, rfl⟩

/-- `release_exec`: the clock is put back. -/
theorem releaseExec_cases {f : Released Px Pl} (h : s.releaseExec cfg f = some (s', o)) :
    (s' = s ∧ o = []) ∨
      ∃ s₁, s.processQ cfg f.fill.pl = some (s₁, o) ∧
        s' = { s₁ with currtim := s.currtim, txtimEpoch := s.txtimEpoch } := by
  unfold State.releaseExec at h
  split at h
  · cases h
    exact .inl ⟨rfl, rfl⟩
  · obtain ⟨⟨s₁, o₁⟩, hq, heq⟩ := Option.map_eq_some_iff.mp h
    cases heq
    exact .inr ⟨s₁, hq, rfl⟩

/-- `process_slated_exec`: what the slate releases, then the record's own payload. -/
theorem processSlatedExec_some {m : Mbo Px} {pl : Pl}
    (h : s.processSlatedExec cfg ops m pl = some (s', o)) :
    ∃ s₁ o₁ o₂, releaseExecs cfg
        (s.execSlate.onBook ops.samePx m.orderID m.transactTime m.orderUpdateAction m.pxd).2
        { s with execSlate :=
            (s.execSlate.onBook ops.samePx m.orderID m.transactTime m.orderUpdateAction m.pxd).1 } =
          some (s₁, o₁) ∧
      s₁.processQ cfg pl = some (s', o₂) ∧ o = o₁ ++ o₂ :=
  andThen_some h

/-! ### Book records -/

/-- The ADD branch: a snapshot writes a held order over, a record is left alone, or an order is
    entered under the next id and goes through `process_q`. -/
inductive Adds (cfg : FeedCfg) (ops : PriceOps Px) (s : State Px) (m : Mbo Px) :
    State Px → List Sent → Prop
  | resent {e : OrderInfo Px} {side : Side} (he : s.ordermap.lookup m.orderID = some e)
      (hrec : m.recovery = true) (hside : getSide m.side = some side) :
      Adds cfg ops s m
        { s with
          ordermap := s.ordermap.insert m.orderID
            { e with px := m.pxd, sz := m.displayQty, side := side } } []
  | ignored (hnot : (s.ordermap.lookup m.orderID).isSome ∨ ops.pos m.pxd = false) :
      Adds cfg ops s m s []
  | entered {side : Side} {s₁ s' : State Px} {pl : Pl} {o : List Sent}
      (hnone : s.ordermap.lookup m.orderID = none)
      (hs₁ : s₁ = { s.bumpId with
        ordermap := s.ordermap.insert m.orderID
          { chopid := s.nextId m, xoid := m.orderID, px := m.pxd, sz := m.displayQty
            side := side } })
      (hpl : s₁.mboPayload ops m side (s.nextId m) .add .none (toInt32 m.displayQty)
        (toInt32 m.displayQty) m.pxd m.endOfEvent m.recovery = some pl)
      (hq : s₁.processQ cfg pl = some (s', o)) : Adds cfg ops s m s' o

theorem onAdd_cases {m : Mbo Px} (h : s.onAdd cfg ops m = some (s', o)) :
    Adds cfg ops s m s' o := by
  unfold State.onAdd at h
  split at h
  next e he =>
    split at h
    next hresend =>
      obtain ⟨side, hside, heq⟩ := Option.map_eq_some_iff.mp h
      cases heq
      exact .resent he hresend.1 hside
    next =>
      cases h
      exact .ignored (.inl (Option.isSome_iff_exists.mpr ⟨e, he⟩))
  next hnone =>
    split at h
    next hneg =>
      cases h
      exact .ignored (.inr hneg)
    next =>
      obtain ⟨side, -, h⟩ := Option.bind_eq_some_iff.mp h
      dsimp only at h
      split at h
      · cases h
      · obtain ⟨pl, hpl, hq⟩ := Option.bind_eq_some_iff.mp h
        exact .entered hnone rfl hpl hq

/-- The CANCD branch: nothing for an order that is not held, else the delete and the order's
    entry. -/
theorem onCancd_cases {m : Mbo Px} (h : s.onCancd cfg ops m = some (s', o)) :
    (s.ordermap.lookup m.orderID = none ∧ s' = s ∧ o = []) ∨
      ∃ e pl s₁, s.ordermap.lookup m.orderID = some e ∧
        s.mboPayload ops m e.side e.chopid .mod .cancd 0 0 e.px m.endOfEvent m.recovery =
          some pl ∧
        s.processSlatedExec cfg ops m pl = some (s₁, o) ∧
        s' = { s₁ with ordermap := s₁.ordermap.erase m.orderID } := by
  unfold State.onCancd at h
  split at h
  next hnone =>
    cases h
    exact .inl ⟨hnone, rfl, rfl⟩
  next e he =>
    obtain ⟨pl, hpl, h⟩ := Option.bind_eq_some_iff.mp h
    obtain ⟨⟨s₁, o₁⟩, hq, heq⟩ := Option.map_eq_some_iff.mp h
    cases heq
    exact .inr ⟨e, pl, s₁, he, hpl, hq, rfl⟩

/-- The price of a cancel replace. -/
def replacePx (m : Mbo Px) (e : OrderInfo Px) : Px :=
  if (getSide m.side).isSome then m.pxd else e.px

/-- The price of a cancel replace is the record's, when it has a side, or the old one. -/
theorem replacePx_onLadder {m : Mbo Px} {e : OrderInfo Px} (hpx : onLadder cfg ops m.pxd = true)
    (he : onLadder cfg ops e.px = true) : onLadder cfg ops (replacePx m e) = true := by
  unfold replacePx
  split
  · exact hpx
  · exact he

/-- The cancel replace: the delete under the old id, the add under the next one. -/
theorem cancReplace_some {m : Mbo Px} {e : OrderInfo Px}
    (h : s.cancReplace cfg ops m e = some (s', o)) :
    ∃ pl₁ s₁ o₁ pl₂ s₂ o₂,
      s.mboPayload ops m e.side e.chopid .mod .cancd 0 0 e.px false false = some pl₁ ∧
      s.processSlatedExec cfg ops m pl₁ = some (s₁, o₁) ∧
      s₁.bumpId.mboPayload ops m e.side (s₁.nextId m) .add .none (toInt32 m.displayQty)
        (toInt32 m.displayQty) (replacePx m e) m.endOfEvent false = some pl₂ ∧
      s₁.bumpId.processQ cfg pl₂ = some (s₂, o₂) ∧ (getSide m.side).getD e.side = e.side ∧
      s' = { s₂ with
        ordermap := s₂.ordermap.insert m.orderID
          { e with
            chopid := s₁.nextId m, xoid := m.orderID, sz := m.displayQty
            px := replacePx m e } } ∧
      o = o₁ ++ o₂ := by
  obtain ⟨pl₁, hpl₁, h⟩ := Option.bind_eq_some_iff.mp h
  obtain ⟨s₁, o₁, o₂, hdel, hrest, rfl⟩ := andThen_some h
  obtain ⟨pl₂, hpl₂, hrest⟩ := Option.bind_eq_some_iff.mp hrest
  obtain ⟨⟨s₂, o₃⟩, hadd, hrest⟩ := Option.bind_eq_some_iff.mp hrest
  split at hrest
  · cases hrest
  next hside =>
    have hside := not_not.mp hside
    rw [hside] at hpl₂
    cases hrest
    exact ⟨pl₁, s₁, o₁, pl₂, s₂, o₃, hpl₁, hdel, hpl₂, hadd, hside, rfl, rfl⟩

/-- The CANC branch: nothing for an order that is not held, a cancel replace, or a reduction
    that is written in the map first. -/
theorem onCanc_cases {m : Mbo Px} (h : s.onCanc cfg ops m = some (s', o)) :
    (s.ordermap.lookup m.orderID = none ∧ s' = s ∧ o = []) ∨
      ∃ e, s.ordermap.lookup m.orderID = some e ∧
        ((e.sz < m.displayQty ∨ (getSide m.side).isSome ∧ ops.eq m.pxd e.px = false) ∧
            (getSide m.side).isSome ∧ s.cancReplace cfg ops m e = some (s', o) ∨
          ¬ (e.sz < m.displayQty ∨ (getSide m.side).isSome ∧ ops.eq m.pxd e.px = false) ∧
            ∃ pl s₁, s₁ = { s with
                ordermap := s.ordermap.insert m.orderID { e with sz := m.displayQty } } ∧
              s₁.mboPayload ops m e.side e.chopid .mod .canc 0 (toInt32 m.displayQty) e.px
                m.endOfEvent m.recovery = some pl ∧
              s₁.processSlatedExec cfg ops m pl = some (s', o)) := by
  unfold State.onCanc at h
  split at h
  next hnone =>
    cases h
    exact .inl ⟨hnone, rfl, rfl⟩
  next e he =>
    refine .inr ⟨e, he, ?_⟩
    split at h
    · cases h
    next hsided =>
      split at h
      next hmoves =>
        -- without a side the size cannot grow, so the record has a side
        refine .inl ⟨hmoves, ?_, h⟩
        by_contra hnone
        rw [Bool.not_eq_true, Option.isSome_eq_false_iff] at hnone
        rcases hmoves with hgrows | ⟨hsome, -⟩
        · exact hsided ⟨hnone, hgrows⟩
        · rw [Option.isNone_iff_eq_none.mp hnone] at hsome
          cases hsome
      next hstays =>
        obtain ⟨pl, hpl, hq⟩ := Option.bind_eq_some_iff.mp h
        exact .inr ⟨hstays, pl, _, rfl, hpl, hq⟩

/-- A snapshot record is a New; a record off the ladder is a delete. -/
theorem applyMbo_cases {m : Mbo Px} {bad : Bool} (h : s.applyMbo cfg ops m bad = some (s', o)) :
    (m.recovery = true → m.orderUpdateAction = 0) ∧
      ((m.orderUpdateAction = 2 ∨ bad = true) ∧ s.onCancd cfg ops m = some (s', o) ∨
        bad = false ∧ m.orderUpdateAction = 0 ∧ s.onAdd cfg ops m = some (s', o) ∨
        bad = false ∧ m.orderUpdateAction = 1 ∧ s.onCanc cfg ops m = some (s', o)) := by
  unfold State.applyMbo at h
  split at h
  · cases h
  next hlive =>
    refine ⟨fun hrec => not_not.mp fun hold => hlive ⟨hrec, hold⟩, ?_⟩
    split at h
    next hdelete => exact .inl ⟨hdelete, h⟩
    next hdelete =>
      have hgood : bad = false := Bool.eq_false_iff.mpr fun hbad => hdelete (.inr hbad)
      split at h
      next hnew => exact .inr (.inl ⟨hgood, hnew, h⟩)
      next =>
        split at h
        next hchange => exact .inr (.inr ⟨hgood, hchange, h⟩)
        next => cases h

/-- A recovery that begins clears the book; otherwise only the mark follows the record. -/
theorem trackRecovery_cases {m : Mbo Px} (h : s.trackRecovery cfg m = some (s', o)) :
    (m.recovery = true ∧ s.isInRecovery = false ∧
        ∃ s₁, s.clear cfg = some (s₁, o) ∧ s' = { s₁ with isInRecovery := true }) ∨
      (¬ (m.recovery = true ∧ s.isInRecovery = false) ∧
        s' = { s with isInRecovery := m.recovery } ∧ o = []) := by
  unfold State.trackRecovery at h
  split at h
  next hbegins =>
    obtain ⟨⟨s₁, o₁⟩, hclear, heq⟩ := Option.map_eq_some_iff.mp h
    cases heq
    exact .inl ⟨hbegins.1, hbegins.2, s₁, hclear, rfl⟩
  next hnot =>
    refine .inr ⟨hnot, ?_⟩
    split at h
    next hends =>
      cases h
      rw [hends.1]
      exact ⟨rfl, rfl⟩
    next hkeeps =>
      cases h
      have hsame : s.isInRecovery = m.recovery := by
        cases hrec : m.recovery <;> cases hin : s.isInRecovery <;> simp_all
      rw [← hsame]
      exact ⟨rfl, rfl⟩

/-- The clock of a book record. -/
def State.stamped (s : State Px) (m : Mbo Px) : State Px :=
  { s with txtimEpoch := m.transactTime, sendtimEpoch := m.sendingTime }

/-- The record gets as far as the gate. -/
def Reaches (cfg : FeedCfg) (ops : PriceOps Px) (m : Mbo Px) : Prop :=
  (onLadder cfg ops m.pxd = true ∨ m.orderUpdateAction ≠ 0) ∧
    (m.securityID = cfg.exSymId ∨ m.securityID = cfg.sym) ∧ cfg.isOption = false

instance (cfg : FeedCfg) (ops : PriceOps Px) (m : Mbo Px) : Decidable (Reaches cfg ops m) :=
  inferInstanceAs (Decidable (_ ∧ _ ∧ _))

/-- A record off the ladder that gets there is not a New. -/
theorem Reaches.not_new {m : Mbo Px} (h : Reaches cfg ops m)
    (hbad : (!onLadder cfg ops m.pxd) = true) : m.orderUpdateAction ≠ 0 := by
  rw [Bool.not_eq_true'] at hbad
  rcases h.1 with hpx | haction
  · rw [hpx] at hbad
    cases hbad
  · exact haction

/-- The three ways of a book record: it does not get to the gate, the gate rejects it, or it
    is applied. -/
theorem onMbo_cases {m : Mbo Px} (h : s.onMbo cfg ops m = some (s', o)) :
    (¬ Reaches cfg ops m ∧ (∃ t t', s' = { s with txtimEpoch := t, sendtimEpoch := t' }) ∧
        o = []) ∨
      (Reaches cfg ops m ∧ ((s.stamped m).gate m).2 = false ∧ s' = ((s.stamped m).gate m).1 ∧
        o = []) ∨
      (Reaches cfg ops m ∧ ((s.stamped m).gate m).2 = true ∧
        ∃ s₁ o₁ o₂, ((s.stamped m).gate m).1.trackRecovery cfg m = some (s₁, o₁) ∧
          s₁.applyMbo cfg ops m (!onLadder cfg ops m.pxd) = some (s', o₂) ∧ o = o₁ ++ o₂) := by
  unfold State.onMbo at h
  dsimp only at h
  split at h
  next hbad =>
    cases h
    refine .inl ⟨?_, ⟨s.txtimEpoch, s.sendtimEpoch, rfl⟩, rfl⟩
    rintro ⟨hpx, -⟩
    rcases hpx with hpx | hpx
    · rw [hpx] at hbad
      exact Bool.false_ne_true hbad.1
    · exact hpx hbad.2
  next hgood =>
    split at h
    next hsec =>
      cases h
      refine .inl ⟨?_, ⟨s.txtimEpoch, s.sendtimEpoch, rfl⟩, rfl⟩
      rintro ⟨-, hmine, -⟩
      exact hmine.elim hsec.1 hsec.2
    next hsec =>
      split at h
      next hoption =>
        cases h
        refine .inl ⟨?_, ⟨m.transactTime, m.sendingTime, rfl⟩, rfl⟩
        rintro ⟨-, -, hnot⟩
        rw [hnot] at hoption
        cases hoption
      next hoption =>
        have hreaches : Reaches cfg ops m := by
          refine ⟨?_, ?_, Bool.eq_false_iff.mpr hoption⟩
          · by_contra hnone
            rw [not_or, not_not, Bool.not_eq_true] at hnone
            exact hgood ⟨by rw [hnone.1]; rfl, hnone.2⟩
          · by_contra hnone
            rw [not_or] at hnone
            exact hsec hnone
        right
        split at h
        next hpass =>
          cases h
          exact .inl ⟨hreaches, hpass, rfl, rfl⟩
        next hpass =>
          obtain ⟨s₁, o₁, o₂, htrack, happly, rfl⟩ := andThen_some h
          exact .inr ⟨hreaches, Bool.not_eq_false _ ▸ hpass, s₁, o₁, o₂, htrack, happly, rfl⟩

/-! ### The other messages -/

/-- The execution that a trade record puts on the slate. -/
def State.slated (ops : PriceOps Px) (s : State Px) (t : MboTrd) : Option (Trade Px Pl) :=
  match s.ordermap.lookup t.orderID with
  | none => none
  | some ord =>
      let pl : Pl :=
        { side := ord.side, exOrderId := t.orderID, orderRef := ord.chopid, mev := .mod
          action := .exec, sz := t.lastQty, dispSz := 0, px := ops.toPx ord.px
          tim := t.transactTime, sendTim := t.sendingTime, mkt := t.venue
          eoe := t.endOfEvent, recovery := false, txtimEpoch := s.txtimEpoch
          sendtimEpoch := s.sendtimEpoch }
      let best := match ord.side with
        | .buy => s.book.bestBid
        | .sel => s.book.bestAsk
      some
        { oid := t.orderID, tx := t.transactTime, px := ord.px, side := ord.side
          qty := t.lastQty.toNat, atTouch := ops.toPx ord.px == best, pl := pl }

/-- The book when a trade record has closed the transaction before it. -/
def State.advanced (cfg : FeedCfg) (s : State Px) (t : MboTrd) : Option (State Px × List Sent) :=
  releaseExecs cfg (s.execSlate.advance t.transactTime).2
    { s with
      txtimEpoch := t.transactTime, sendtimEpoch := t.sendingTime
      execSlate := (s.execSlate.advance t.transactTime).1 }

/-- A trade record: what its time releases, then the execution of a held order is slated. -/
theorem onTrd_cases {t : MboTrd} (h : s.onTrd cfg ops t = some (s', o)) :
    (cfg.isOption = true ∧ s' = s ∧ o = []) ∨
      (cfg.isOption = false ∧ ∃ s₁ o₁ o₂, s.advanced cfg t = some (s₁, o₁) ∧ o = o₁ ++ o₂ ∧
        (s₁.slated ops t = none ∧ s' = s₁ ∧ o₂ = [] ∨
          ∃ trade, s₁.slated ops t = some trade ∧
            releaseExecs cfg (s₁.execSlate.onTrade trade).2
              { s₁ with execSlate := (s₁.execSlate.onTrade trade).1 } = some (s', o₂))) := by
  unfold State.onTrd at h
  split at h
  next hoption =>
    cases h
    exact .inl ⟨hoption, rfl, rfl⟩
  next hoption =>
    obtain ⟨s₁, o₁, o₂, hadvanced, hrest, rfl⟩ := andThen_some h
    refine .inr ⟨Bool.eq_false_iff.mpr hoption, s₁, o₁, o₂, hadvanced, rfl, ?_⟩
    split at hrest
    next hnone =>
      cases hrest
      exact .inl ⟨by simp only [State.slated, hnone], rfl, rfl⟩
    next e he =>
      dsimp only at hrest
      split at hrest
      · refine .inr ⟨_, ?_, hrest⟩
        unfold State.slated
        split
        next hnone => cases he.symm.trans hnone
        next e' he' =>
          cases he.symm.trans he'
          rfl
      · cases hrest

/-- One of our orders: applied at once when it has no market time, else it waits. -/
theorem onSim_cases {p : SimPl} {sender : Option ℕ} (h : s.onSim cfg p sender = some (s', o)) :
    p.isSim = true ∧
      (p.ts0 = 0 ∧ State.processMarketData cfg s
          { p with sendTim := s.currtim, txtimEpoch := s.currtim : SimPl }.toPl sender =
            some (s', o) ∨
        p.ts0 ≠ 0 ∧ o = [] ∧ s' = { s with
          delQ := s.delQ ++ [({ p with sendTim := s.currtim, txtimEpoch := s.currtim },
            sender)] }) := by
  unfold State.onSim at h
  split at h
  · cases h
  next hok =>
    refine ⟨Bool.not_eq_false _ ▸ fun hreal => hok (.inl hreal), ?_⟩
    dsimp only at h
    split at h
    next huntimed =>
      split at h
      · cases h
      · exact .inl ⟨huntimed, h⟩
    next htimed =>
      split at h
      · cases h
      · cases h
        exact .inr ⟨htimed, rfl, rfl⟩

/-- A new data subscriber joins one of the lists. -/
theorem subscribe_cases {hi : Bool} {sender : ℕ}
    (h : handle cfg ops s (.subscribe hi sender) = some (s', o)) :
    sender ∉ s.hiprioDatasubs ++ s.lowprioDatasubs ∧ o = [] ∧
      (s' = { s with hiprioDatasubs := s.hiprioDatasubs ++ [sender] } ∨
        s' = { s with lowprioDatasubs := s.lowprioDatasubs ++ [sender] }) := by
  simp only [handle] at h
  split at h
  · cases h
  next hnew =>
    refine ⟨hnew, ?_⟩
    split at h
    · cases h
      exact ⟨rfl, .inl rfl⟩
    · cases h
      exact ⟨rfl, .inr rfl⟩

end KasparHft.OB
