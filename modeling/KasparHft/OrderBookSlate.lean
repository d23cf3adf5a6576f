import KasparHft.FillSlateOwnRecord
import KasparHft.OrderBookDelay

/-!
# The slate of the order book

What each message makes of the slate, as uses of it, and what a record of a held order does in
which order: the executions that the slate releases at it are processed before the record's own
payload.  So an execution is processed before the Change or Delete that shrinks or removes its
order, unless it is the aggressor's.
-/

namespace KasparHft.OB

open AssocMap FillSlate Machine

variable {Px : Type} {cfg : FeedCfg} {ops : PriceOps Px} {s s' : State Px}

/-! ### Uses -/

/-- The uses of a book record: a live Change or Delete of a held order is its own record, and a
    recovery begins with a clear. -/
def State.mboUses (s : State Px) (m : Mbo Px) : List (Use Px Pl) :=
  if m.recovery then
    if s.isInRecovery = false then [.clear] else []
  else
    match s.ordermap.lookup m.orderID with
    | none => []
    | some _ =>
        if m.orderUpdateAction = 0 then []
        else [.call (.onBook m.orderID m.transactTime m.orderUpdateAction m.pxd)]

/-- The uses of a trade record. -/
def State.trdUses (cfg : FeedCfg) (ops : PriceOps Px) (s : State Px) (t : MboTrd) :
    List (Use Px Pl) :=
  if cfg.isOption then []
  else
    .call (.advance t.transactTime) ::
      match s.advanced cfg t with
      | none => []
      | some (s, _) => (s.slated ops t).toList.map fun trade => .call (.onTrade trade)

/-- What a message makes of the slate. -/
def State.slateUses (cfg : FeedCfg) (ops : PriceOps Px) (s : State Px) :
    Event Px → List (Use Px Pl)
  | .mbo m => if Reaches cfg ops m ∧ (s.gate m).2 = true then s.mboUses m else []
  | .mboTrd t => (s.firstRecord cfg t.transactTime false).trdUses cfg ops t
  | .chr => [.clear]
  | _ => []

/-- What a run makes of it. -/
def usesOf (cfg : FeedCfg) (ops : PriceOps Px) : State Px → List (Event Px) → List (Use Px Pl)
  | _, [] => []
  | s, e :: es =>
      s.slateUses cfg ops e ++
        match handle cfg ops s e with
        | none => []
        | some (s', _) => usesOf cfg ops s' es

/-- The slate is used so. -/
def Uses (ops : PriceOps Px) (s : State Px) (us : List (Use Px Pl)) (s' : State Px) : Prop :=
  ∃ out, run (useStep ops.samePx) s.execSlate us = some (s'.execSlate, out)

theorem Uses.nil (h : s'.execSlate = s.execSlate) : Uses ops s [] s' :=
  ⟨[], by rw [run_nil, h]⟩

theorem Uses.one {u : Use Px Pl} (h : s'.execSlate = (s.execSlate.use ops.samePx u).1) :
    Uses ops s [u] s' := by
  refine ⟨(s.execSlate.use ops.samePx u).2, ?_⟩
  rw [run_one, h]
  rfl

theorem Uses.append {s₁ : State Px} {us vs : List (Use Px Pl)} (h : Uses ops s us s₁)
    (h' : Uses ops s₁ vs s') : Uses ops s (us ++ vs) s' := by
  obtain ⟨o₁, h₁⟩ := h
  obtain ⟨o₂, h₂⟩ := h'
  exact ⟨o₁ ++ o₂, run_append.mpr ⟨_, o₁, o₂, h₁, h₂, rfl⟩⟩

/-! ### Records of held orders -/

theorem releaseExecs_sameHeld {fs : List (Released Px Pl)} {o : List Sent}
    (hfs : ∀ f ∈ fs, f.fill.pl.IsExec) (h : releaseExecs cfg fs s = some (s', o)) :
    SameHeld s s' := by
  obtain ⟨-, -, hsame, -⟩ := releaseExecs_rounds hfs h
  exact hsame

theorem processQ_sameHeld {pl : Pl} {o : List Sent} (hmev : pl.mev = .add ∨ pl.mev = .mod)
    (h : s.processQ cfg pl = some (s', o)) : SameHeld s s' := by
  obtain ⟨-, -, hsame, -⟩ := processQ_rounds hmev h
  exact hsame

theorem andThen_pure (r : Option (State Px × List Sent)) :
    (andThen r fun s => some (s, [])) = r := by
  rcases r with _ | ⟨s, o⟩
  · rfl
  · exact congrArg (fun o => some (s, o)) (List.append_nil o)

theorem map_eq_andThen (r : Option (State Px × List Sent)) (f : State Px → State Px) :
    r.map (fun r => (f r.1, r.2)) = andThen r fun s => some (f s, []) := by
  rcases r with _ | ⟨s, o⟩
  · rfl
  · exact congrArg (fun o => some (f s, o)) (List.append_nil o).symm

/-- The payload of a Change or Delete of an order. -/
def Pl.IsRecordOf (oid : ℕ) (pl : Pl) : Prop :=
  pl.exOrderId = oid ∧ pl.mev = .mod ∧ (pl.action = .canc ∨ pl.action = .cancd)

/-- What `r` does with a record of an order: what the slate releases at the record is processed
    first, then the record's own payload, and what follows leaves the slate alone. -/
def OwnRecord (cfg : FeedCfg) (ops : PriceOps Px) (s : State Px) (m : Mbo Px)
    (r : Option (State Px × List Sent)) : Prop :=
  ∃ (b : State Px) (pl : Pl) (rest : State Px → Option (State Px × List Sent)),
    r = andThen (andThen (releaseExecs cfg
      (s.execSlate.onBook ops.samePx m.orderID m.transactTime m.orderUpdateAction m.pxd).2 b)
      fun s => s.processQ cfg pl) rest ∧
    b.book = s.book ∧
    b.execSlate =
      (s.execSlate.onBook ops.samePx m.orderID m.transactTime m.orderUpdateAction m.pxd).1 ∧
    pl.IsRecordOf m.orderID ∧
    ∀ s₂ s₃ o, rest s₂ = some (s₃, o) → s₃.execSlate = s₂.execSlate

theorem processSlatedExec_ownRecord {m : Mbo Px} {pl : Pl} (hpl : pl.IsRecordOf m.orderID)
    {rest : State Px → Option (State Px × List Sent)}
    (hrest : ∀ s₂ s₃ o, rest s₂ = some (s₃, o) → s₃.execSlate = s₂.execSlate) :
    OwnRecord cfg ops s m (andThen (s.processSlatedExec cfg ops m pl) rest) :=
  ⟨{ s with execSlate :=
      (s.execSlate.onBook ops.samePx m.orderID m.transactTime m.orderUpdateAction m.pxd).1 },
    pl, rest, rfl, rfl, rfl, hpl, hrest⟩

theorem mboPayload_isRecordOf {m : Mbo Px} {side : Side} {ref : LongId} {action : Mt}
    {sz dispSz : ℤ} {px : Px} {eoe recovery : Bool} {pl : Pl}
    (haction : action = .canc ∨ action = .cancd)
    (h : s.mboPayload ops m side ref .mod action sz dispSz px eoe recovery = some pl) :
    pl.IsRecordOf m.orderID := by
  unfold State.mboPayload at h
  dsimp only at h
  split at h
  · cases h
    exact ⟨rfl, rfl, haction⟩
  · cases h

theorem onCancd_ownRecord {m : Mbo Px} {e : OrderInfo Px} {o : List Sent}
    (he : s.ordermap.lookup m.orderID = some e) (h : s.onCancd cfg ops m = some (s', o)) :
    OwnRecord cfg ops s m (s.onCancd cfg ops m) := by
  unfold State.onCancd at h ⊢
  rw [he] at h ⊢
  dsimp only at h ⊢
  obtain ⟨pl, hpl, -⟩ := Option.bind_eq_some_iff.mp h
  rw [hpl, Option.bind_some, map_eq_andThen _ fun s₁ : State Px =>
    { s₁ with ordermap := s₁.ordermap.erase m.orderID }]
  refine processSlatedExec_ownRecord (mboPayload_isRecordOf (.inr rfl) hpl) ?_
  intro s₂ s₃ o' heq
  cases heq
  rfl

theorem cancReplace_ownRecord {m : Mbo Px} {e : OrderInfo Px} {o : List Sent}
    (h : s.cancReplace cfg ops m e = some (s', o)) :
    OwnRecord cfg ops s m (s.cancReplace cfg ops m e) := by
  unfold State.cancReplace at h ⊢
  dsimp only at h ⊢
  obtain ⟨pl, hpl, -⟩ := Option.bind_eq_some_iff.mp h
  rw [hpl, Option.bind_some]
  refine processSlatedExec_ownRecord (mboPayload_isRecordOf (.inr rfl) hpl) ?_
  -- the order is added again
  intro s₂ s₃ o' hadd
  obtain ⟨pl₂, hpl₂, hadd⟩ := Option.bind_eq_some_iff.mp hadd
  obtain ⟨⟨s₄, o₄⟩, hq, hend⟩ := Option.bind_eq_some_iff.mp hadd
  have hsame := processQ_sameHeld (.inl (mboPayload_fields hpl₂).1) hq
  split at hend
  · cases hend
  · cases hend
    exact hsame.2

theorem onCanc_ownRecord {m : Mbo Px} {e : OrderInfo Px} {o : List Sent}
    (he : s.ordermap.lookup m.orderID = some e) (h : s.onCanc cfg ops m = some (s', o)) :
    OwnRecord cfg ops s m (s.onCanc cfg ops m) := by
  unfold State.onCanc at h ⊢
  rw [he] at h ⊢
  dsimp only at h ⊢
  split at h
  · cases h
  next hside =>
    rw [if_neg hside]
    split at h
    next hreplace =>
      rw [if_pos hreplace]
      exact cancReplace_ownRecord h
    next hkeep =>
      rw [if_neg hkeep]
      obtain ⟨pl, hpl, -⟩ := Option.bind_eq_some_iff.mp h
      rw [hpl, Option.bind_some]
      have hpure : ∀ (s₂ s₃ : State Px) (o' : List Sent),
          some (s₂, []) = some (s₃, o') → s₃.execSlate = s₂.execSlate := by
        intro s₂ s₃ o' heq
        cases heq
        rfl
      have hown := @processSlatedExec_ownRecord _ cfg ops
        { s with ordermap := s.ordermap.insert m.orderID { e with sz := m.displayQty } } m pl
        (mboPayload_isRecordOf (.inl rfl) hpl) _ hpure
      rw [andThen_pure] at hown
      exact hown

theorem applyMbo_ownRecord {m : Mbo Px} {bad : Bool} {e : OrderInfo Px} {o : List Sent}
    (hlive : m.recovery = false) (he : s.ordermap.lookup m.orderID = some e)
    (haction : m.orderUpdateAction ≠ 0) (h : s.applyMbo cfg ops m bad = some (s', o)) :
    OwnRecord cfg ops s m (s.applyMbo cfg ops m bad) := by
  unfold State.applyMbo at h ⊢
  rw [hlive] at h ⊢
  simp only [Bool.false_eq_true, false_and, if_false] at h ⊢
  split at h
  next hdelete =>
    rw [if_pos hdelete]
    exact onCancd_ownRecord he h
  next hdelete =>
    rw [if_neg hdelete, if_neg haction]
    split at h
    next hchange =>
      rw [if_pos hchange]
      exact onCanc_ownRecord he h
    next => cases h

/-- The slate after a record of a held order. -/
theorem OwnRecord.execSlate {m : Mbo Px} {r : Option (State Px × List Sent)} {o : List Sent}
    (hown : OwnRecord cfg ops s m r) (hslate : ExecsOnly s.execSlate) (h : r = some (s', o)) :
    s'.execSlate =
      (s.execSlate.onBook ops.samePx m.orderID m.transactTime m.orderUpdateAction m.pxd).1 := by
  obtain ⟨b, pl, rest, rfl, -, hb, hpl, hrest⟩ := hown
  obtain ⟨-, hexecs⟩ :=
    hslate.onBook ops.samePx m.orderID m.transactTime m.orderUpdateAction m.pxd
  obtain ⟨s₂, o₂, o₃, hfirst, hlast, -⟩ := andThen_some h
  obtain ⟨s₁, o₁, o₄, hrel, hq, -⟩ := andThen_some hfirst
  have hsame := (releaseExecs_sameHeld hexecs hrel).trans (processQ_sameHeld (.inr hpl.2.1) hq)
  rw [hrest s₂ s' o₃ hlast, hsame.2, hb]

/-! ### Each message -/

theorem onAdd_execSlate {m : Mbo Px} {o : List Sent} (h : s.onAdd cfg ops m = some (s', o)) :
    s'.execSlate = s.execSlate := by
  cases onAdd_cases h with
  | resent => rfl
  | ignored => rfl
  | entered _ hs₁ hpl hq =>
      rw [(processQ_sameHeld (.inl (mboPayload_fields hpl).1) hq).2, hs₁]
      rfl

/-- A record of an order that is not held, or a New, leaves the slate alone. -/
theorem applyMbo_execSlate {m : Mbo Px} {bad : Bool} {o : List Sent}
    (hnot : m.orderUpdateAction = 0 ∨ s.ordermap.lookup m.orderID = none)
    (hbad : bad = true → m.orderUpdateAction ≠ 0)
    (h : s.applyMbo cfg ops m bad = some (s', o)) : s'.execSlate = s.execSlate := by
  rcases (applyMbo_cases h).2 with ⟨hdelete, h⟩ | ⟨-, -, h⟩ | ⟨-, hchange, h⟩
  · have hold : m.orderUpdateAction ≠ 0 := by
      rcases hdelete with htwo | htrue
      · omega
      · exact hbad htrue
    rcases onCancd_cases h with ⟨-, rfl, -⟩ | ⟨e, pl, s₁, he, -⟩
    · rfl
    · rw [hnot.resolve_left hold] at he
      cases he
  · exact onAdd_execSlate h
  · rcases onCanc_cases h with ⟨-, rfl, -⟩ | ⟨e, he, -⟩
    · rfl
    · rw [hnot.resolve_left (by omega)] at he
      cases he

theorem trackRecovery_live {m : Mbo Px} {o : List Sent} (hlive : m.recovery = false)
    (h : s.trackRecovery cfg m = some (s', o)) :
    s'.book = s.book ∧ SameHeld s s' ∧ o = [] := by
  rcases trackRecovery_cases h with ⟨hrec, -⟩ | ⟨-, rfl, rfl⟩
  · rw [hlive] at hrec
    cases hrec
  · exact ⟨rfl, ⟨rfl, rfl⟩, rfl⟩

theorem clear_execSlate {o : List Sent} (h : s.clear cfg = some (s', o)) :
    s'.execSlate = s.execSlate.clear := by
  obtain ⟨⟨b, n⟩, -, heq⟩ := Option.map_eq_some_iff.mp h
  cases heq
  rfl

theorem trackRecovery_snapshot {m : Mbo Px} {o : List Sent} (hsnapshot : m.recovery = true)
    (h : s.trackRecovery cfg m = some (s', o)) :
    s'.execSlate = if s.isInRecovery = false then s.execSlate.clear else s.execSlate := by
  rcases trackRecovery_cases h with ⟨-, hnot, s₁, hclear, rfl⟩ | ⟨hbegun, rfl, -⟩
  · have hslate := clear_execSlate hclear
    rw [if_pos hnot]
    exact hslate
  · rw [if_neg fun hfalse => hbegun ⟨hsnapshot, hfalse⟩]

/-- A live record of a held order that is let through. -/
theorem mbo_ownRecord {m : Mbo Px} {e : OrderInfo Px} {o : List Sent}
    (hreaches : Reaches cfg ops m) (hpass : (s.gate m).2 = true) (hlive : m.recovery = false)
    (he : s.ordermap.lookup m.orderID = some e) (haction : m.orderUpdateAction ≠ 0)
    (h : handle cfg ops s (.mbo m) = some (s', o)) :
    OwnRecord cfg ops s m (handle cfg ops s (.mbo m)) := by
  have hmbo : (s.firstRecord cfg m.transactTime false).onMbo cfg ops m = some (s', o) := h
  rcases onMbo_cases hmbo with ⟨hnot, -⟩ | ⟨-, hrej, -⟩ | ⟨-, -, s₁, o₁, o₂, htrack, happly, rfl⟩
  · exact absurd hreaches hnot
  · rw [gate_stamped_snd, hpass] at hrej
    cases hrej
  · obtain ⟨hbook, htracked, rfl⟩ := trackRecovery_live hlive htrack
    have hsame : SameHeld s s₁ :=
      ((firstRecord_sameHeld cfg s m.transactTime false).trans (gate_sameHeld _ m)).trans htracked
    rw [← hsame.1] at he
    obtain ⟨b, pl, rest, heq, hb, hslate, hpl, hrest⟩ := applyMbo_ownRecord hlive he haction happly
    rw [hsame.2] at heq hslate
    refine ⟨b, pl, rest, ?_, ?_, hslate, hpl, hrest⟩
    · rw [h, ← heq, happly]
      rfl
    · rw [hb, hbook, gate_book, firstRecord_book]

/-- What a book record makes of the slate. -/
theorem mbo_uses {m : Mbo Px} {o : List Sent} (hs : Held cfg ops s)
    (h : handle cfg ops s (.mbo m) = some (s', o)) :
    Uses ops s (s.slateUses cfg ops (.mbo m)) s' := by
  have hmbo : (s.firstRecord cfg m.transactTime false).onMbo cfg ops m = some (s', o) := h
  have hfirst := firstRecord_sameHeld cfg s m.transactTime false
  dsimp only [State.slateUses]
  rcases onMbo_cases hmbo with ⟨hnot, ⟨t, t', rfl⟩, -⟩ | ⟨-, hrej, hs', -⟩ |
    ⟨hreaches, hpass, s₁, o₁, o₂, htrack, happly, -⟩
  · rw [if_neg fun h => hnot h.1]
    exact .nil hfirst.2
  · rw [gate_stamped_snd] at hrej
    have hnot : ¬ (Reaches cfg ops m ∧ (s.gate m).2 = true) := by
      rw [hrej]
      exact fun h => Bool.false_ne_true h.2
    rw [if_neg hnot]
    exact .nil (hs' ▸ (hfirst.trans (gate_sameHeld _ m)).2)
  · rw [gate_stamped_snd] at hpass
    rw [if_pos ⟨hreaches, hpass⟩]
    have hgated := hfirst.trans (gate_sameHeld _ m)
    unfold State.mboUses
    rcases hlive : m.recovery with _ | _
    · rw [if_neg Bool.false_ne_true]
      have htracked := (trackRecovery_live hlive htrack).2.1
      have hsame := hgated.trans htracked
      have hnone : m.orderUpdateAction = 0 ∨ s.ordermap.lookup m.orderID = none →
          Uses ops s [] s' := by
        intro hnot
        rw [← hsame.1] at hnot
        exact .nil ((applyMbo_execSlate hnot hreaches.not_new happly).trans hsame.2)
      rcases he : s.ordermap.lookup m.orderID with _ | e
      · exact hnone (.inr he)
      · dsimp only
        split
        next hnew => exact hnone (.inl hnew)
        next hold =>
          exact .one ((mbo_ownRecord hreaches hpass hlive he hold h).execSlate hs.execs h)
    · -- a snapshot record is a New
      rw [if_pos rfl]
      have hnew : m.orderUpdateAction = 0 := (applyMbo_cases happly).1 hlive
      have hrecovery :
          (((s.firstRecord cfg m.transactTime false).stamped m).gate m).1.isInRecovery =
          s.isInRecovery :=
        (gate_isInRecovery _ m).trans (firstRecord_recovery cfg s m.transactTime false).2.2
      have hadd := applyMbo_execSlate (.inl hnew) hreaches.not_new happly
      have htracked := trackRecovery_snapshot hlive htrack
      rw [hrecovery, hgated.2] at htracked
      split
      next hbegins =>
        rw [if_pos hbegins] at htracked
        exact .one (hadd.trans htracked)
      next hbegun =>
        rw [if_neg hbegun] at htracked
        exact .nil (hadd.trans htracked)

/-- What a trade record makes of the slate. -/
theorem trd_uses {t : MboTrd} {o : List Sent} (hs : Held cfg ops s)
    (h : s.onTrd cfg ops t = some (s', o)) : Uses ops s (s.trdUses cfg ops t) s' := by
  unfold State.trdUses
  rcases onTrd_cases h with ⟨hoption, rfl, -⟩ | ⟨hoption, s₁, o₁, o₂, hadvanced, -, hslated⟩
  · rw [if_pos hoption]
    exact .nil rfl
  · rw [if_neg (Bool.eq_false_iff.mp hoption)]
    obtain ⟨hslate, hexecs⟩ := hs.execs.advance t.transactTime
    have hsame := releaseExecs_sameHeld hexecs hadvanced
    have hslate₁ : ExecsOnly s₁.execSlate := by
      rw [hsame.2]
      exact hslate
    have hfirst : Uses ops s [.call (.advance t.transactTime)] s₁ := .one hsame.2
    rw [hadvanced]
    refine hfirst.append ?_
    rcases hslated with ⟨hnone, rfl, -⟩ | ⟨trade, htrade, hrel⟩
    · rw [hnone]
      exact .nil rfl
    · rw [htrade]
      exact .one (releaseExecs_sameHeld (hslate₁.onTrade htrade).2 hrel).2

/-- A channel reset clears the slate; a gap and the end of a burst leave it alone. -/
theorem onControl_execSlate {mev : Md} {o : List Sent}
    (hmev : mev = .clear ∨ mev = .gap ∨ mev = .eoburst)
    (h : s.onControl cfg mev = some (s', o)) :
    s'.execSlate = if mev = .clear then s.execSlate.clear else s.execSlate := by
  rcases onControl_cases hmev h with
    ⟨hclear, s₁, s₂, o₁, hbefore, hcleared, hafter⟩ | ⟨hnot, hkept⟩
  · rw [if_pos hclear, hafter.execSlate, clear_execSlate hcleared, hbefore.execSlate]
  · rw [if_neg hnot, hkept.execSlate]

/-- **Each message** makes its uses of the slate, and no others. -/
theorem handle_uses {e : Event Px} {o : List Sent} (hs : Held cfg ops s)
    (h : handle cfg ops s e = some (s', o)) : Uses ops s (s.slateUses cfg ops e) s' := by
  cases e with
  | mbo m => exact mbo_uses hs h
  | mboTrd t =>
      have hfirst := firstRecord_sameHeld cfg s t.transactTime false
      exact Uses.append (.nil hfirst.2) (trd_uses (hs.of_same hfirst) h)
  | chr => exact .one (onControl_execSlate (.inl rfl) h)
  | gap => exact .nil (onControl_execSlate (.inr (.inl rfl)) h)
  | eob => exact .nil (onControl_execSlate (.inr (.inr rfl)) h)
  | sst txtim tradingStatus =>
      cases h
      exact .nil (firstRecord_sameHeld cfg s txtim true).2
  | other txTime =>
      cases h
      exact .nil (firstRecord_sameHeld cfg s txTime false).2
  | sim p sender =>
      obtain ⟨-, ⟨-, happly⟩ | ⟨-, -, rfl⟩⟩ := onSim_cases h
      · exact .nil (processMarketData_sameHeld (s.timed p).mev_eq happly).2
      · exact .nil rfl
  | bbboSub sender =>
      cases h
      exact .nil rfl
  | subscribe hi sender =>
      obtain ⟨-, -, rfl | rfl⟩ := subscribe_cases h <;> exact .nil rfl

/-! ### Runs -/

theorem uses_of_run {es : List (Event Px)} {out : List Sent} (hs : Held cfg ops s)
    (hrun : run (handle cfg ops) s es = some (s', out)) :
    Uses ops s (usesOf cfg ops s es) s' ∧ Held cfg ops s' := by
  induction es generalizing s out with
  | nil =>
      cases hrun
      exact ⟨.nil rfl, hs⟩
  | cons e es ih =>
      obtain ⟨s₁, o₁, o₂, hstep, hrest, -⟩ := run_cons.mp hrun
      obtain ⟨-, -, hs₁, -⟩ := handle_path hs hstep
      obtain ⟨huses, hs'⟩ := ih hs₁ hrest
      dsimp only [usesOf]
      rw [hstep]
      exact ⟨(handle_uses hs hstep).append huses, hs'⟩

theorem usesOf_concat {es : List (Event Px)} {out : List Sent} (e : Event Px)
    (hrun : run (handle cfg ops) s es = some (s', out)) :
    usesOf cfg ops s (es ++ [e]) = usesOf cfg ops s es ++ s'.slateUses cfg ops e := by
  induction es generalizing s out with
  | nil =>
      cases hrun
      dsimp only [usesOf, List.nil_append]
      split <;> exact List.append_nil _
  | cons d es ih =>
      obtain ⟨s₁, o₁, o₂, hstep, hrest, -⟩ := run_cons.mp hrun
      rw [List.cons_append]
      dsimp only [usesOf]
      rw [hstep]
      dsimp only
      rw [ih hrest, List.append_assoc]

/-- A bid, and an execution of it in the transaction that deletes it. -/
def tradedBid : List (Event ℤ) :=
  [bidOfFive 300 0 1 10 false,
    .mboTrd
      { venue := 1, transactTime := 50000, sendingTime := 50000, lastQty := 5, orderID := 1
        endOfEvent := false }]

end KasparHft.OB
