import KasparHft.FillSlateAhead
import KasparHft.TachBookSums

/-!
# A book and its slate

What a record does to the slate of a book, and what it does to the rest.  Neither depends on
what the slate holds: a record makes calls that the rest of the book determines, and the rest of
the book does the same with a fresh slate.  The trades a book publishes are the fills its slate
releases, less those of aggressors.
-/

namespace KasparHft.TachBook

open AssocMap FillSlate

variable {Px : Type} {ops : PriceOps Px} {s s' : State Px}

/-- The book with a fresh slate. -/
def State.bare (s : State Px) : State Px := { s with fillSlate := .new .atDecision }

/-- The fill of a trade record of a held order. -/
def State.fillOf (ops : PriceOps Px) (s : State Px) (t : MboTrd) (ord : Order Px) :
    Trade Px (Payload Px) where
  oid := t.orderID
  tx := t.transactTime
  px := ord.pxd
  side := ord.side
  qty := t.lastQty.toNat
  pl :=
    { side := ord.side, exOrderId := t.orderID, orderRef := ⟨0, 0⟩, mev := .mod
      action := .exec, sz := t.lastQty, dispSz := 0, px := ord.pxd, tim := t.transactTime
      sendTim := t.sendingTime, mkt := t.venue, eoe := t.endOfEvent, recovery := false }
  atTouch := ops.toPx ord.pxd == (s.toBook.side ord.side).best

/-- The calls of a book record. -/
def State.mboCalls (s : State Px) (m : Mbo Px) : List (Call Px (Payload Px)) :=
  if m.securityID ≠ s.secId ∨ m.recovery = true then []
  else [.onBook m.orderID m.transactTime m.orderUpdateAction m.pxd]

/-- The calls of a trade record. -/
def State.trdCalls (ops : PriceOps Px) (s : State Px) (t : MboTrd) :
    List (Call Px (Payload Px)) :=
  .advance t.transactTime ::
    match s.orders.lookup t.orderID with
    | none => []
    | some ord => [.onTrade (s.fillOf ops t ord)]

/-- The calls a record makes on the slate of a book that has latched. -/
def State.calls (ops : PriceOps Px) (s : State Px) (l3 : L3 Px) : List (Call Px (Payload Px)) :=
  if s.haveScale = false then []
  else
    match l3 with
    | .mbo m => s.mboCalls m
    | .mboTrd t => s.trdCalls ops t
    | .chr => [.flush]
    | .gap | .other => []

/-- The slate after a record, and what it released. -/
def State.slateAfter (ops : PriceOps Px) (s : State Px) (a : Asset) (l3 : L3 Px) :
    Slate Px (Payload Px) × List (Released Px (Payload Px)) :=
  s.fillSlate.callAll ops.samePx ((s.latch a).calls ops l3)

/-- What is done with the slate is put beside what the rest of the book does. -/
def beside (g : Slate Px (Payload Px) × List (Released Px (Payload Px)))
    (r : State Px × List (Out Px)) : State Px × List (Out Px) :=
  ({ r.1 with fillSlate := g.1 }, g.2.flatMap releaseFill ++ r.2)

/-! ### The two parts of a record -/

theorem publishBook_slate (s : State Px) (g : Slate Px (Payload Px)) (pl : Payload Px) :
    { s with fillSlate := g }.publishBook pl =
      (s.publishBook pl).map fun r => ({ r.1 with fillSlate := g }, r.2) := by
  unfold State.publishBook
  dsimp only
  split
  · rfl
  · split
    · rfl
    · split
      · split
        · rfl
        · rfl
      · rfl

/-- A book record on the book, with what it made the slate and what this released. -/
def State.applied (ops : PriceOps Px) (s : State Px) (m : Mbo Px)
    (g : Slate Px (Payload Px) × List (Released Px (Payload Px))) :
    Option (State Px × List (Out Px)) :=
  match s.toBook.applyMbo ops m with
  | none => none
  | some (b, pl) =>
      let s := { s with toBook := b, fillSlate := g.1 }
      match pl with
      | none => some (s, g.2.flatMap releaseFill)
      | some pl =>
          if m.recovery then some (s, g.2.flatMap releaseFill)
          else (s.publishBook pl).map fun r => (r.1, g.2.flatMap releaseFill ++ r.2)

theorem applied_beside (s : State Px) (m : Mbo Px)
    (g : Slate Px (Payload Px) × List (Released Px (Payload Px))) :
    s.applied ops m g = (s.bare.applied ops m (.new .atDecision, [])).map (beside g) := by
  have hbook : s.bare.toBook = s.toBook := rfl
  unfold State.applied
  rw [hbook]
  rcases s.toBook.applyMbo ops m with _ | ⟨b, _ | pl⟩
  · rfl
  · dsimp only
    rw [Option.map_some, beside, List.flatMap_nil, List.append_nil]
    rfl
  · dsimp only
    split
    · rw [Option.map_some, beside, List.flatMap_nil, List.append_nil]
      rfl
    · have hslate := publishBook_slate { s.bare with toBook := b } g.1 pl
      have hfull : ({ s with toBook := b, fillSlate := g.1 } : State Px) =
          { ({ s.bare with toBook := b } : State Px) with fillSlate := g.1 } := rfl
      rw [hfull, hslate, Option.map_map, Option.map_map]
      rfl

theorem onMbo_beside (s : State Px) (m : Mbo Px) :
    s.onMbo ops m =
      (s.bare.onMbo ops m).map (beside (s.fillSlate.callAll ops.samePx (s.mboCalls m))) := by
  unfold State.onMbo State.mboCalls
  by_cases hsec : m.securityID ≠ s.secId
  · have hsec' : m.securityID ≠ s.bare.secId := hsec
    rw [if_pos hsec, if_pos hsec', if_pos (.inl hsec)]
    rfl
  · have hsec' : ¬ m.securityID ≠ s.bare.secId := hsec
    rw [if_neg hsec, if_neg hsec']
    by_cases hrec : m.recovery = true
    · have hcalls : m.securityID ≠ s.secId ∨ m.recovery = true := .inr hrec
      rw [if_pos hrec, if_pos hrec, if_pos hcalls]
      exact applied_beside s m (s.fillSlate, [])
    · have hcalls : ¬ (m.securityID ≠ s.secId ∨ m.recovery = true) := not_or.mpr ⟨hsec, hrec⟩
      rw [if_neg hcalls, callAll_singleton, if_neg hrec, if_neg hrec]
      exact applied_beside s m (s.fillSlate.onBook ops.samePx m.orderID m.transactTime
        m.orderUpdateAction m.pxd)

/-- A fresh slate keeps its first fill. -/
theorem onTrade_new (t : Trade Px (Payload Px)) :
    ((Slate.new .atDecision : Slate Px (Payload Px)).onTrade t).2 = [] := by
  have hundecided : (((Slate.new .atDecision : Slate Px (Payload Px)).pushFill t).indexFill t
      0).aside = .unknown := by
    unfold Slate.indexFill
    split
    · split <;> rfl
    · rfl
  change [] ++ ((((Slate.new .atDecision : Slate Px (Payload Px)).pushFill t).indexFill t
    0).releaseIfDecided t.oid 0).2 = []
  rw [List.nil_append]
  unfold Slate.releaseIfDecided
  split
  · rw [if_neg]
    rintro ⟨hdecided, -⟩
    exact hdecided hundecided
  · rfl

/-- The payload a trade record makes, if it makes one; `none` is an abort. -/
def State.trdPayload (ops : PriceOps Px) (s : State Px) (t : MboTrd) :
    Option (Option (Payload Px)) :=
  match s.orders.lookup t.orderID with
  | none => some none
  | some ord => (makePayload ops (s.fillOf ops t ord).pl).map some

theorem onTrd_eq (s : State Px) (t : MboTrd) :
    s.onTrd ops t = (s.trdPayload ops t).map fun _ =>
      beside (s.fillSlate.callAll ops.samePx (s.trdCalls ops t)) (s, []) := by
  unfold State.onTrd State.trdPayload State.trdCalls
  cases s.orders.lookup t.orderID with
  | none =>
      rw [callAll_singleton, Option.map_some, beside, List.append_nil]
      rfl
  | some ord =>
      rw [callAll_pair, Option.map_map, beside, List.append_nil]
      refine Option.map_congr fun pl hpl => ?_
      obtain ⟨-, -, rfl⟩ := makePayload_eq_some.mp hpl
      rfl

theorem trdCalls_new (s : State Px) (t : MboTrd) :
    ((Slate.new .atDecision).callAll ops.samePx (s.trdCalls ops t)).2 = [] := by
  unfold State.trdCalls
  cases s.orders.lookup t.orderID with
  | none => rfl
  | some ord =>
      rw [callAll_pair]
      exact onTrade_new (s.fillOf ops t ord)

theorem onTrd_beside (s : State Px) (t : MboTrd) :
    s.onTrd ops t =
      (s.bare.onTrd ops t).map (beside (s.fillSlate.callAll ops.samePx (s.trdCalls ops t))) := by
  have hpayload : s.bare.trdPayload ops t = s.trdPayload ops t := rfl
  have hnone : (s.bare.fillSlate.callAll ops.samePx (s.bare.trdCalls ops t)).2 = [] :=
    trdCalls_new s t
  rw [onTrd_eq, onTrd_eq, hpayload, Option.map_map]
  refine Option.map_congr fun pl hpl => ?_
  rw [Function.comp_apply, beside, beside, beside, hnone]
  rfl

/-- **A record on a book and its slate**: what the rest of the book does, beside the calls of
    the record. -/
theorem dataHandler_beside (s : State Px) (a : Asset) (l3 : L3 Px) :
    s.dataHandler ops a l3 =
      (s.bare.dataHandler ops a l3).map (beside (s.slateAfter ops a l3)) := by
  have hlatch : s.bare.latch a = (s.latch a).bare := rfl
  have hslate : s.fillSlate = (s.latch a).fillSlate := rfl
  unfold State.dataHandler State.slateAfter State.calls
  rw [hlatch, hslate]
  generalize s.latch a = s
  have hscale : s.bare.haveScale = s.haveScale := rfl
  dsimp only
  rw [hscale]
  split
  · rfl
  · cases l3 with
    | mbo m => exact onMbo_beside s m
    | mboTrd t => exact onTrd_beside s t
    | chr =>
        rw [callAll_singleton]
        rfl
    | gap => rfl
    | other => rfl

theorem dataHandler_eq_some {a : Asset} {l3 : L3 Px} {o : List (Out Px)} :
    s.dataHandler ops a l3 = some (s', o) ↔
      ∃ r, s.bare.dataHandler ops a l3 = some r ∧ beside (s.slateAfter ops a l3) r = (s', o) := by
  rw [dataHandler_beside, Option.map_eq_some_iff]

/-! ### The calls -/

/-- The transaction time of a record. -/
def timeOf : L3 Px → Option ℕ
  | .mbo m => some m.transactTime
  | .mboTrd t => some t.transactTime
  | .chr | .gap | .other => none

/-- The calls of a record are of its transaction. -/
theorem calls_tx (s : State Px) (l3 : L3 Px) : ∀ c ∈ s.calls ops l3, c.tx = timeOf l3 := by
  intro c hc
  unfold State.calls at hc
  split at hc
  · cases hc
  · cases l3 with
    | mbo m =>
        dsimp only [State.mboCalls] at hc
        split at hc
        · cases hc
        · rw [List.mem_singleton.mp hc]
          rfl
    | mboTrd t =>
        rcases List.mem_cons.mp hc with rfl | hc
        · rfl
        · split at hc
          · cases hc
          · rw [List.mem_singleton.mp hc]
            rfl
    | chr =>
        rw [List.mem_singleton.mp hc]
        rfl
    | gap => cases hc
    | other => cases hc

/-! ### A trade of an order that is not held -/

section Unheld

variable {t : MboTrd}

theorem trdCalls_unheld (h : t.orderID ∉ s.orders) :
    s.trdCalls ops t = [.advance t.transactTime] := by
  unfold State.trdCalls
  rw [AList.lookup_eq_none.mpr h]

/-- The slate is told of its transaction. -/
theorem slateAfter_unheld (h : t.orderID ∉ s.orders) (a : Asset) :
    s.slateAfter ops a (.mboTrd t) =
      if (s.latch a).haveScale = false then (s.fillSlate, [])
      else s.fillSlate.advance t.transactTime := by
  have hunheld : t.orderID ∉ (s.latch a).orders := h
  unfold State.slateAfter State.calls
  split
  · rfl
  · dsimp only
    rw [trdCalls_unheld hunheld, callAll_singleton]
    rfl

/-- The rest of the book does nothing. -/
theorem dataHandler_unheld (h : t.orderID ∉ s.orders) (a : Asset) :
    s.dataHandler ops a (.mboTrd t) =
      some (beside (s.slateAfter ops a (.mboTrd t)) ((s.latch a).bare, [])) := by
  have hunheld : t.orderID ∉ (s.bare.latch a).orders := h
  have hbare : s.bare.dataHandler ops a (.mboTrd t) = some ((s.latch a).bare, []) := by
    unfold State.dataHandler
    dsimp only
    split
    · rfl
    · have hpayload : (s.bare.latch a).trdPayload ops t = some none := by
        unfold State.trdPayload
        rw [AList.lookup_eq_none.mpr hunheld]
      rw [onTrd_eq, hpayload, trdCalls_unheld hunheld]
      rfl
  rw [dataHandler_beside, hbare]
  rfl

end Unheld

/-! ### Trades -/

/-- A trade that is published. -/
def Out.trade : Out Px → Option (Payload Px)
  | .tradeNotify pl => some pl
  | .endOfBurst _ _ | .endOfBurst2 .. | .bbboChg .. | .clear | .gapDetected => none

/-- The trades a book publishes of the fills its slate releases. -/
def published (fs : List (Released Px (Payload Px))) : List (Payload Px) :=
  fs.filterMap fun f => if f.role = .aggressor then none else some f.fill.pl

theorem published_append (fs gs : List (Released Px (Payload Px))) :
    published (fs ++ gs) = published fs ++ published gs := List.filterMap_append

theorem trades_releaseFill (fs : List (Released Px (Payload Px))) :
    (fs.flatMap releaseFill).filterMap Out.trade = published fs := by
  induction fs with
  | nil => rfl
  | cons f fs ih =>
      rw [List.flatMap_cons, List.filterMap_append, ih]
      unfold published releaseFill
      rw [List.filterMap_cons]
      split
      next hrole => simp
      next hrole => simp [Out.trade]

/-- What the latch has written stays. -/
structure SameLatch (s s' : State Px) : Prop where
  haveScale : s'.haveScale = s.haveScale
  haveSecId : s'.haveSecId = s.haveSecId
  secId : s'.secId = s.secId

theorem publishBook_quiet {pl : Payload Px} {o : List (Out Px)}
    (h : s.publishBook pl = some (s', o)) : o.filterMap Out.trade = [] ∧ SameLatch s s' := by
  unfold State.publishBook at h
  dsimp only at h
  split at h
  · cases h
    exact ⟨rfl, rfl, rfl, rfl⟩
  · split at h
    · cases h
      exact ⟨rfl, rfl, rfl, rfl⟩
    · split at h
      · split at h
        · cases h
        · cases h
          refine ⟨?_, rfl, rfl, rfl⟩
          split <;> split <;> rfl
      · cases h
        refine ⟨?_, rfl, rfl, rfl⟩
        split <;> rfl

/-- The rest of the book publishes no trade. -/
theorem bare_quiet {a : Asset} {l3 : L3 Px} {o : List (Out Px)}
    (h : s.bare.dataHandler ops a l3 = some (s', o)) :
    o.filterMap Out.trade = [] ∧ SameLatch (s.latch a) s' := by
  have hlatch : s.bare.latch a = (s.latch a).bare := rfl
  have hslate : (s.latch a).bare.fillSlate = .new .atDecision := rfl
  unfold State.dataHandler at h
  rw [hlatch] at h
  dsimp only at h
  split at h
  · cases h
    exact ⟨rfl, rfl, rfl, rfl⟩
  · cases l3 with
    | mbo m =>
        dsimp only [State.onMbo] at h
        split at h
        · cases h
          exact ⟨rfl, rfl, rfl, rfl⟩
        · have hfresh : (s.latch a).bare.fillSlate.onBook ops.samePx m.orderID m.transactTime
              m.orderUpdateAction m.pxd = (.new .atDecision, []) := rfl
          rw [hfresh, hslate, ite_self] at h
          dsimp only at h
          split at h
          · cases h
          · split at h
            · cases h
              exact ⟨rfl, rfl, rfl, rfl⟩
            · split at h
              · cases h
                exact ⟨rfl, rfl, rfl, rfl⟩
              · obtain ⟨⟨q, o'⟩, hpublish, heq⟩ := Option.map_eq_some_iff.mp h
                cases heq
                obtain ⟨htrades, hhave, hhaveId, hid⟩ := publishBook_quiet hpublish
                exact ⟨htrades, hhave, hhaveId, hid⟩
    | mboTrd t =>
        dsimp only at h
        rw [onTrd_eq] at h
        obtain ⟨-, -, heq⟩ := Option.map_eq_some_iff.mp h
        have hnone := @trdCalls_new Px ops (s.latch a).bare t
        rw [hslate, beside, hnone] at heq
        cases heq
        exact ⟨rfl, rfl, rfl, rfl⟩
    | chr =>
        cases h
        exact ⟨rfl, rfl, rfl, rfl⟩
    | gap =>
        cases h
        exact ⟨rfl, rfl, rfl, rfl⟩
    | other =>
        cases h
        exact ⟨rfl, rfl, rfl, rfl⟩

section Handled

variable {a : Asset} {l3 : L3 Px} {o : List (Out Px)}

/-- **The trades of a record** are those of the fills it makes the slate release. -/
theorem dataHandler_trades (h : s.dataHandler ops a l3 = some (s', o)) :
    o.filterMap Out.trade = published (s.slateAfter ops a l3).2 := by
  obtain ⟨⟨q, o'⟩, hbare, heq⟩ := dataHandler_eq_some.mp h
  cases heq
  rw [List.filterMap_append, trades_releaseFill, (bare_quiet hbare).1, List.append_nil]

/-! ### What a book reads, and what it holds -/

theorem latch_latch (s : State Px) (a : Asset) : (s.latch a).latch a = s.latch a := by
  unfold State.latch
  cases s.haveSecId <;> cases a.secId != 0 <;> cases s.haveScale <;> cases a.units <;> simp

theorem dataHandler_latch (s : State Px) (a : Asset) (l3 : L3 Px) :
    (s.latch a).dataHandler ops a l3 = s.dataHandler ops a l3 := by
  unfold State.dataHandler
  rw [latch_latch]

theorem SameLatch.latch (h : SameLatch s s') (a : Asset) :
    SameLatch (s.latch a) (s'.latch a) := by
  constructor
  · unfold State.latch
    rw [h.haveScale]
  · unfold State.latch
    rw [h.haveSecId]
  · unfold State.latch
    rw [h.haveSecId, h.secId]

/-- A book reads the records of the same instrument after a record as before. -/
theorem dataHandler_reads (h : s.dataHandler ops a l3 = some (s', o)) (m : Mbo Px) :
    s'.Reads a m ↔ s.Reads a m := by
  obtain ⟨⟨q, o'⟩, hbare, heq⟩ := dataHandler_eq_some.mp h
  cases heq
  have hlatch : SameLatch (s.latch a) (q.latch a) := by
    have hsame := (bare_quiet hbare).2.latch a
    rwa [latch_latch] at hsame
  change (q.latch a).haveScale = true ∧ m.securityID = (q.latch a).secId ↔ _
  rw [hlatch.haveScale, hlatch.secId]
  exact Iff.rfl

end Handled

section Orders

variable {b b' : Book Px} {m : Mbo Px} {pl : Option (Payload Px)} {oid : ℕ}

theorem canc_orders (h : b.canc ops m = some (b', pl)) : oid ∈ b'.orders ↔ oid ∈ b.orders := by
  rcases hl : b.orders.lookup m.orderID with _ | ord
  · unfold Book.canc at h
    rw [hl] at h
    cases h
    exact Iff.rfl
  · have hmem : m.orderID ∈ b.orders := AList.lookup_isSome.mp (by rw [hl]; rfl)
    have hinsert : ∀ o, oid ∈ b.orders.insert m.orderID o ↔ oid ∈ b.orders := by
      intro o
      rw [AList.mem_insert]
      exact or_iff_right_of_imp fun heq => heq ▸ hmem
    obtain ⟨-, ⟨-, -, -, rfl⟩ | ⟨-, -, rfl⟩ | ⟨-, -, rfl⟩⟩ := canc_cases hl h
    · exact hinsert _
    · exact hinsert _
    · exact hinsert _

theorem cancd_orders (h : b.cancd ops m = some (b', pl)) :
    oid ∈ b'.orders ↔ oid ≠ m.orderID ∧ oid ∈ b.orders := by
  unfold Book.cancd at h
  rcases hl : b.orders.lookup m.orderID with _ | ord
  · rw [hl] at h
    cases h
    have hne : oid ∈ b.orders → oid ≠ m.orderID := by
      rintro hmem rfl
      exact AList.lookup_eq_none.mp hl hmem
    exact (and_iff_right_of_imp hne).symm
  · rw [hl] at h
    dsimp only at h
    split at h
    · cases h
      exact AList.mem_erase
    · split at h
      · obtain ⟨p, -, heq⟩ := Option.map_eq_some_iff.mp h
        cases heq
        exact AList.mem_erase
      · cases h

/-- An order held after a book record was held before and is not deleted by it, or is its New. -/
theorem applyMbo_held (h : b.applyMbo ops m = some (b', pl)) (hheld : oid ∈ b'.orders) :
    oid ∈ b.orders ∧ (oid = m.orderID → m.orderUpdateAction ≠ 2) ∨
      oid = m.orderID ∧ m.orderUpdateAction = 0 := by
  unfold Book.applyMbo at h
  split at h
  next hnew =>
    by_cases hid : oid = m.orderID
    · exact .inr ⟨hid, hnew⟩
    · obtain ⟨sd, -, -, rfl⟩ := add_cases h
      rw [orders_uncross, ← AList.lookup_isSome, place_lookup_of_ne hid,
        AList.lookup_isSome] at hheld
      exact .inl ⟨hheld, fun heq => absurd heq hid⟩
  next =>
    split at h
    next hchange => exact .inl ⟨(canc_orders h).mp hheld, fun _ => by omega⟩
    next =>
      split at h
      next hdelete =>
        obtain ⟨hne, hmem⟩ := (cancd_orders h).mp hheld
        exact .inl ⟨hmem, fun heq => absurd heq hne⟩
      next hother =>
        cases h
        exact .inl ⟨hheld, fun _ => hother⟩

/-- The same for any record: only a New that the book reads adds an order, and a Delete that it
    reads leaves none of its id. -/
theorem dataHandler_held {a : Asset} {l3 : L3 Px} {o : List (Out Px)}
    (h : s.dataHandler ops a l3 = some (s', o)) (hheld : oid ∈ s'.orders) :
    (oid ∈ s.orders ∧ ∀ m, l3 = .mbo m → s.Reads a m → oid = m.orderID →
        m.orderUpdateAction ≠ 2) ∨
      ∃ m, l3 = .mbo m ∧ s.Reads a m ∧ oid = m.orderID ∧ m.orderUpdateAction = 0 := by
  have hstep : step ops s (.data a l3) = some (s', o) := h
  rcases step_book hstep with ⟨a', m, pl, heq, hread, happly⟩ | ⟨hempty, -⟩ | ⟨hsame, hother⟩
  · cases heq
    rcases applyMbo_held happly hheld with ⟨hmem, hkept⟩ | ⟨hid, hnew⟩
    · refine .inl ⟨hmem, fun m' hm' _ hid => ?_⟩
      cases hm'
      exact hkept hid
    · exact .inr ⟨m, rfl, hread, hid, hnew⟩
  · rw [hempty] at hheld
    exact absurd hheld (AList.notMem_empty oid)
  · rw [hsame] at hheld
    refine .inl ⟨hheld, fun m hm hread => ?_⟩
    exact absurd hread (hother a m (by rw [hm]))

end Orders

end KasparHft.TachBook
