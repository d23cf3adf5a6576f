import KasparHft.Light22
import Mathlib.Tactic.Linarith

/-!
# What a message does

Whatever the market brings, a light does at most one thing: it cancels the order it works, or
it places one where it works none.  `handle_acts` says so once for all messages but those of
the order manager, which `fill_cases`, `cancAck_cases`, `cancRej_cases` and `reject_cases`
are about.
-/

namespace KasparHft.Light22

variable {c : Cfg} {mmid : ℕ} {d d' : Desk} {o : List Out}

/-! ### Removals -/

/-- The order `id` of the light is taken out, if the light has one. -/
def Removes (q q' : QCoord) (px : ℤ) (mmid : ℕ) (id : ℤ) : Prop :=
  (¬ (mmid < kMaxMmid ∧ q.mmidOrders mmid = true) ∧ SameOrders q q') ∨
    ∃ e, e.id = id ∧ (mmid < kMaxMmid ∧ q.mmidOrders mmid = true) ∧
      Changes q q' px mmid (some e) none

theorem Removes.congr {q₁ q₂ q₃ : QCoord} {px id : ℤ} (h : Removes q₂ q₃ px mmid id)
    (hfirst : SameOrders q₁ q₂) : Removes q₁ q₃ px mmid id := by
  unfold Removes at h ⊢
  rw [← hfirst.mmidOrders]
  rcases h with ⟨hno, hsame⟩ | ⟨e, hid, hbit, hchange⟩
  · exact .inl ⟨hno, hfirst.trans hsame⟩
  · exact .inr ⟨e, hid, hbit, hchange.congr hfirst (.refl _)⟩

theorem removeOrder_all {q q' : QCoord} {px id r : ℤ}
    (h : q.removeOrder px 0 mmid id true = some (q', r)) : r = 0 ∧ Removes q q' px mmid id := by
  rcases removeOrder_some h with ⟨hno, rfl, rfl⟩ | ⟨e, hid, -, hbit, hcase⟩
  · exact ⟨rfl, .inl ⟨hno, .refl _⟩⟩
  · rcases hcase with ⟨-, rfl, hchange⟩ | ⟨hall, -⟩
    · exact ⟨rfl, .inr ⟨e, hid, hbit, hchange⟩⟩
    · cases hall

/-! ### Acts -/

/-- The slot, the orders listed and the position stay. -/
structure Keeps (d d' : Desk) : Prop where
  slot : d'.light.ordInfo = d.light.ordInfo
  orders : SameOrders d.qcoord d'.qcoord
  position : d'.position = d.position

/-- The target and the order size stay. -/
structure SameSettings (l l' : Light) : Prop where
  targetpos : l'.targetpos = l.targetpos
  ordSz : l'.ordSz = l.ordSz

/-- The order the light works is cancelled. -/
structure Cancels (mmid : ℕ) (d d' : Desk) (ord : OrdInfo) : Prop where
  slot : d.light.ordInfo = some ord
  live : ord.canc = false
  marked : d'.light.ordInfo = some { ord with canc := true }
  removed : Removes d.qcoord d'.qcoord ord.px mmid ord.oid
  position : d'.position = d.position

/-- An order is placed: the light worked none. -/
structure Places (mmid : ℕ) (d d' : Desk) (id sz px : ℤ) : Prop where
  slot : d.light.ordInfo = none
  taken : d'.light.ordInfo = some ⟨id, px, false⟩
  added : Changes d.qcoord d'.qcoord px mmid none (some ⟨id, sz⟩)
  inRange : mmid < kMaxMmid
  position : d'.position = d.position
  pos : 0 < sz
  le : sz ≤ d.light.ordSz

/-- The orders among the messages sent. -/
def orders (o : List Out) : List (ℤ × ℤ) :=
  o.filterMap fun
    | .order id sz _ _ => some (id, sz)
    | _ => none

/-- At most one thing is done. -/
inductive Acts (mmid : ℕ) (d d' : Desk) (o : List Out) : Prop where
  | idle (h : Keeps d d') (hsent : orders o = [])
  | cancel (ord : OrdInfo) (h : Cancels mmid d d' ord) (hsent : orders o = [])
  | place (id sz px : ℤ) (h : Places mmid d d' id sz px) (hsent : orders o = [(id, sz)])

theorem Keeps.refl (d : Desk) : Keeps d d := ⟨rfl, .refl _, rfl⟩

theorem acts_self (mmid : ℕ) (d : Desk) :
    Acts mmid d d [] ∧ SameSettings d.light d.light :=
  ⟨.idle (.refl d) rfl, rfl, rfl⟩

theorem acts_of_self (h : some (d, ([] : List Out)) = some (d', o)) :
    Acts mmid d d' o ∧ SameSettings d.light d'.light := by
  cases h
  exact acts_self mmid d

/-- What a light does after its members changed without touching its slot. -/
theorem Acts.of_keeps {d₁ : Desk} (h : Acts mmid d₁ d' o ∧ SameSettings d₁.light d'.light)
    (hslot : d₁.light.ordInfo = d.light.ordInfo) (hset : SameSettings d.light d₁.light)
    (horders : SameOrders d.qcoord d₁.qcoord) (hpos : d₁.position = d.position) :
    Acts mmid d d' o ∧ SameSettings d.light d'.light := by
  obtain ⟨hacts, hset'⟩ := h
  refine ⟨?_, hset'.targetpos.trans hset.targetpos, hset'.ordSz.trans hset.ordSz⟩
  cases hacts with
  | idle h hsent =>
      exact .idle ⟨h.slot.trans hslot, horders.trans h.orders, h.position.trans hpos⟩ hsent
  | cancel ord h hsent =>
      exact .cancel ord ⟨hslot ▸ h.slot, h.live, h.marked, h.removed.congr horders,
        h.position.trans hpos⟩ hsent
  | place id sz px h hsent =>
      refine .place id sz px ⟨hslot ▸ h.slot, h.taken, h.added.congr horders (.refl _), h.inRange,
        h.position.trans hpos, h.pos, ?_⟩ hsent
      rw [← hset.ordSz]
      exact h.le

/-! ### Market messages -/

theorem cancelOrder_acts {fromRej : Bool}
    (h : d.cancelOrder mmid fromRej = some (d', o)) :
    Acts mmid d d' o ∧ SameSettings d.light d'.light := by
  unfold Desk.cancelOrder at h
  rcases hslot : d.light.ordInfo with _ | ord
  · rw [hslot] at h
    exact acts_of_self h
  · rw [hslot] at h
    dsimp only at h
    split at h
    next hcanc =>
      cases h
      exact ⟨.idle ⟨rfl, .refl _, rfl⟩ rfl, rfl, rfl⟩
    next hlive =>
      rcases hrem : d.qcoord.removeOrder ord.px 0 mmid ord.oid true with _ | ⟨q, stbf⟩
      · rw [hrem] at h
        cases h
      · obtain ⟨rfl, hremoves⟩ := removeOrder_all hrem
        rw [hrem] at h
        cases h
        refine ⟨.cancel ord ⟨hslot, Bool.eq_false_iff.mpr hlive, rfl, hremoves, rfl⟩ ?_, rfl, rfl⟩
        split <;> rfl

theorem ret_acts (h : d.ret mmid = some (d', o)) :
    Acts mmid d d' o ∧ SameSettings d.light d'.light := by
  unfold Desk.ret at h
  split at h
  · exact cancelOrder_acts h
  · exact acts_of_self h

theorem possibleOrderSz_le (l : Light) (szAtPx diff payloadSz : ℤ)
    (h : 0 < possibleOrderSz l szAtPx diff payloadSz) :
    possibleOrderSz l szAtPx diff payloadSz ≤ l.ordSz := by
  unfold possibleOrderSz at h ⊢
  split
  next hfull =>
    rw [if_pos hfull] at h
    exact absurd h (Int.lt_irrefl 0)
  next =>
    exact Int.le_trans (min_le_right _ _) (Int.le_trans (min_le_left _ _) (min_le_right _ _))

theorem gate_light (c : Cfg) (l : Light) (alreadyGated : Bool) (draw : ℕ) :
    (gate c l alreadyGated draw).2.ordInfo = l.ordInfo ∧
      SameSettings l (gate c l alreadyGated draw).2 := by
  unfold gate
  split
  · exact ⟨rfl, rfl, rfl⟩
  · split
    · exact ⟨rfl, rfl, rfl⟩
    · split
      · split <;> exact ⟨rfl, rfl, rfl⟩
      · split <;> exact ⟨rfl, rfl, rfl⟩

/-- `place_order` holds the order back or places it. -/
theorem placeOrder_cases {price sz id : ℤ} {ts : ℕ} {ack : Option ℤ}
    (h : d.placeOrder c mmid price sz ts ack = some (d', id, o)) :
    (id = -1 ∧ d' = d ∧ o = []) ∨
      d.light.ordInfo = none ∧ ∃ sz' q, 0 < sz' ∧ sz' ≤ sz ∧ mmid < kMaxMmid ∧
        Changes d.qcoord q price mmid none (some ⟨id, sz'⟩) ∧
        d' = { d with light := { d.light with ordInfo := some ⟨id, price, false⟩ }, qcoord := q } ∧
        o = [.order id sz' price ts] := by
  unfold Desk.placeOrder at h
  split at h
  · cases h
  · rcases ack with _ | ack
    · cases h
      exact .inl ⟨rfl, rfl, rfl⟩
    · right
      dsimp only at h
      split at h
      · cases h
      next hfree =>
        obtain ⟨q, hq, heq⟩ := Option.map_eq_some_iff.mp h
        obtain ⟨hpos, hrange, hadd⟩ := addOrder_some hq
        cases heq
        refine ⟨by simpa using hfree, _, q, hpos, ?_, hrange, hadd, rfl, rfl⟩
        split
        next hcap => exact Int.le_of_lt hcap.2
        next => exact Int.le_refl _

theorem attachAndPlace_acts {pl : Payload ℤ} {sz : ℤ} {alreadyGated : Bool} {draw : ℕ}
    {ack : Option ℤ} (h : d.attachAndPlace c mmid pl sz alreadyGated draw ack = some (d', o))
    (hle : sz ≤ d.light.ordSz) :
    Acts mmid d d' o ∧ SameSettings d.light d'.light := by
  unfold Desk.attachAndPlace at h
  dsimp only at h
  split at h
  · cases h
    exact ⟨.idle ⟨rfl, .refl _, rfl⟩ rfl, rfl, rfl⟩
  · obtain ⟨hslot, hset⟩ := gate_light c
      { d.light with attachedOrderId := pl.exOrderId, attachedIsTrade := alreadyGated }
      alreadyGated draw
    revert hslot hset h
    generalize gate c _ alreadyGated draw = g
    obtain ⟨go, l⟩ := g
    intro h hslot hset
    dsimp only at h hslot hset
    have hset : SameSettings d.light l := ⟨hset.targetpos, hset.ordSz⟩
    split at h
    · cases h
      exact ⟨.idle ⟨hslot, .refl _, rfl⟩ rfl, hset⟩
    · obtain ⟨⟨d₂, id, o₂⟩, hplace, heq⟩ := Option.map_eq_some_iff.mp h
      rcases placeOrder_cases hplace with
        ⟨rfl, rfl, rfl⟩ | ⟨hnone, sz', q, hpos, hsz, hrange, hadd, rfl, rfl⟩
      · have hneg : (-1 : ℤ) < 0 := by decide
        rw [if_pos hneg] at heq
        cases heq
        exact ⟨.idle ⟨hslot, .refl _, rfl⟩ rfl, hset⟩
      · have hfree : d.light.ordInfo = none := hslot.symm.trans hnone
        have hplaced : ∀ q' l', SameOrders q q' → l'.ordInfo = some ⟨id, pl.px, false⟩ →
            Places mmid d ⟨l', q', d.position⟩ id sz' pl.px := by
          intro q' l' hsame htaken
          exact ⟨hfree, htaken, hadd.congr (.refl _) hsame, hrange, rfl, hpos,
            Int.le_trans hsz hle⟩
        dsimp only at heq
        split at heq
        · cases heq
          exact ⟨.place id sz' pl.px (hplaced _ _ (.refl _) rfl) rfl, hset.targetpos, hset.ordSz⟩
        · split at heq
          · cases heq
            exact ⟨.place id sz' pl.px (hplaced _ _ ⟨rfl, rfl, rfl⟩ rfl) rfl, hset.targetpos,
              hset.ordSz⟩
          · cases heq
            exact ⟨.place id sz' pl.px (hplaced _ _ ⟨rfl, rfl, rfl⟩ rfl) rfl, hset.targetpos,
              hset.ordSz⟩

/-- An order is placed only where the total read is below what is left to fill. -/
theorem sizeAndPlace_acts {pl : Payload ℤ} {workOrds : ℤ} {alreadyGated : Bool} {draw : ℕ}
    {ack : Option ℤ} (h : d.sizeAndPlace c mmid pl workOrds alreadyGated draw ack = some (d', o)) :
    (Acts mmid d d' o ∧ SameSettings d.light d'.light) ∧
      (orders o ≠ [] → workOrds < c.workMultiple * |d.position - d.light.targetpos|) := by
  unfold Desk.sizeAndPlace at h
  dsimp only at h
  have hsame := szAtPx_same d.qcoord pl.px
  split at h
  · cases h
    exact ⟨⟨.idle ⟨rfl, hsame, rfl⟩ rfl, rfl, rfl⟩, fun hsent => absurd rfl hsent⟩
  next hroom =>
    refine ⟨?_, fun _ => not_le.mp hroom⟩
    split at h
    · cases h
    · split at h
      · cases h
        exact ⟨.idle ⟨rfl, hsame, rfl⟩ rfl, rfl, rfl⟩
      next hsz =>
        refine Acts.of_keeps (attachAndPlace_acts h ?_) rfl ⟨rfl, rfl⟩ hsame rfl
        exact possibleOrderSz_le _ _ _ _ (Int.not_le.mp hsz)

/-! ### Parts of a handler -/

theorem lastPart_some {r : Option (Desk × List Out)} {p : Part} (h : lastPart r = some p) :
    r = some (p.desk, p.out) ∧ p.rest = none := by
  obtain ⟨⟨d, o⟩, rfl, heq⟩ := Option.map_eq_some_iff.mp h
  cases heq
  exact ⟨rfl, rfl⟩

/-- What a handler of a market message has done when a part of it ends: at most one thing, and
    only the last part places an order. -/
structure SoFar (mmid : ℕ) (d : Desk) (p : Part) : Prop where
  acts : Acts mmid d p.desk p.out
  settings : SameSettings d.light p.desk.light
  sends : p.rest ≠ none → orders p.out = []
  market : ∀ id sz stbf, p.rest ≠ some (.addPosition id sz stbf)

/-- A part that places nothing. -/
structure Opens (mmid : ℕ) (d : Desk) (p : Part) : Prop where
  acts : Acts mmid d p.desk p.out
  settings : SameSettings d.light p.desk.light
  sends : orders p.out = []
  market : ∀ id sz stbf, p.rest ≠ some (.addPosition id sz stbf)

section Parts

variable {p q : Part}

theorem Opens.soFar (h : Opens mmid d p) : SoFar mmid d p :=
  ⟨h.acts, h.settings, fun _ => h.sends, h.market⟩

theorem Opens.of_keeps {d₁ : Desk} (h : Opens mmid d₁ p)
    (hslot : d₁.light.ordInfo = d.light.ordInfo) (hset : SameSettings d.light d₁.light)
    (horders : SameOrders d.qcoord d₁.qcoord) (hpos : d₁.position = d.position) :
    Opens mmid d p := by
  obtain ⟨hacts, hsettings⟩ := Acts.of_keeps ⟨h.acts, h.settings⟩ hslot hset horders hpos
  exact ⟨hacts, hsettings, h.sends, h.market⟩

theorem opens_self (mmid : ℕ) (d : Desk) : Opens mmid d ⟨d, [], none⟩ :=
  ⟨(acts_self mmid d).1, ⟨rfl, rfl⟩, rfl, fun _ _ _ h => by cases h⟩

theorem opens_of_last {r : Option (Desk × List Out)} (h : lastPart r = some p)
    (hr : ∀ d' o, r = some (d', o) →
      (Acts mmid d d' o ∧ SameSettings d.light d'.light) ∧ orders o = []) : Opens mmid d p := by
  obtain ⟨hsome, hlast⟩ := lastPart_some h
  obtain ⟨⟨hacts, hset⟩, hsent⟩ := hr _ _ hsome
  exact ⟨hacts, hset, hsent, fun _ _ _ hrest => by rw [hlast] at hrest; cases hrest⟩

theorem cancelOrder_sends_none {fromRej : Bool} (h : d.cancelOrder mmid fromRej = some (d', o)) :
    orders o = [] := by
  unfold Desk.cancelOrder at h
  split at h
  · cases h
    rfl
  · dsimp only at h
    split at h
    · cases h
      rfl
    · split at h
      · cases h
      · split at h
        · cases h
        · cases h
          split <;> rfl

theorem ret_sends_none (h : d.ret mmid = some (d', o)) : orders o = [] := by
  unfold Desk.ret at h
  split at h
  · exact cancelOrder_sends_none h
  · cases h
    rfl

theorem opens_of_cancel {fromRej : Bool} (h : lastPart (d.cancelOrder mmid fromRej) = some p) :
    Opens mmid d p :=
  opens_of_last h fun _ _ hr => ⟨cancelOrder_acts hr, cancelOrder_sends_none hr⟩

theorem opens_of_ret (h : lastPart (d.ret mmid) = some p) : Opens mmid d p :=
  opens_of_last h fun _ _ hr => ⟨ret_acts hr, ret_sends_none hr⟩

theorem readTotal_opens {pl : Payload ℤ} {pt : Point} {alreadyGated : Bool} {draw : ℕ}
    {ack : Option ℤ} : Opens mmid d (d.readTotal c pl pt alreadyGated draw ack) := by
  unfold Desk.readTotal
  dsimp only
  split
  · exact opens_self mmid d
  split
  · exact opens_self mmid d
  split
  · exact opens_self mmid d
  · exact ⟨(acts_self mmid d).1, ⟨rfl, rfl⟩, rfl, fun _ _ _ h => by cases h⟩

theorem placeIfCan_opens {pl : Payload ℤ} {pt : Point} {alreadyGated : Bool} {draw : ℕ}
    {ack : Option ℤ} : Opens mmid d (d.placeIfCan c pl pt alreadyGated draw ack) := by
  unfold Desk.placeIfCan
  split
  · exact opens_self mmid d
  split
  · exact opens_self mmid d
  split
  · exact opens_self mmid d
  split
  · exact opens_self mmid d
  split
  · exact ⟨(acts_self mmid d).1, ⟨rfl, rfl⟩, rfl, fun _ _ _ h => by cases h⟩
  · exact ⟨(acts_self mmid d).1, ⟨rfl, rfl⟩, rfl, fun _ _ _ h => by cases h⟩

theorem readLevel_opens {px pos : ℤ} {pt : Point} (h : d.readLevel c px pos pt = some p) :
    Opens mmid d p := by
  unfold Desk.readLevel at h
  dsimp only at h
  have hsame := szAtPx_same d.qcoord px
  split at h
  · cases h
    exact ⟨.idle ⟨rfl, hsame, rfl⟩ rfl, ⟨rfl, rfl⟩, rfl, fun _ _ _ h => by cases h⟩
  · split at h
    · cases h
    · split at h
      · cases h
        exact ⟨.idle ⟨rfl, hsame, rfl⟩ rfl, ⟨rfl, rfl⟩, rfl, fun _ _ _ h => by cases h⟩
      · cases h
        exact ⟨.idle ⟨rfl, hsame, rfl⟩ rfl, ⟨rfl, rfl⟩, rfl, fun _ _ _ h => by cases h⟩

theorem actOnBurst_opens {pl : Payload ℤ} {pt : Point} {draw : ℕ} {ack : Option ℤ}
    (h : d.actOnBurst c mmid pl pt draw ack = some p) : Opens mmid d p := by
  unfold Desk.actOnBurst at h
  split at h
  · dsimp only at h
    split at h
    · cases h
      exact ⟨.idle ⟨rfl, .refl _, rfl⟩ rfl, ⟨rfl, rfl⟩, rfl, fun _ _ _ h => by cases h⟩
    · split at h
      · cases h
        exact ⟨.idle ⟨rfl, .refl _, rfl⟩ rfl, ⟨rfl, rfl⟩, rfl, fun _ _ _ h => by cases h⟩
      · exact (opens_of_ret h).of_keeps rfl ⟨rfl, rfl⟩ (.refl _) rfl
  · split at h
    · split at h
      · cases h
        exact placeIfCan_opens
      · cases h
        exact opens_self mmid d
    · split at h
      · cases h
        exact ⟨(acts_self mmid d).1, ⟨rfl, rfl⟩, rfl, fun _ _ _ h => by cases h⟩
      · cases h
        exact opens_self mmid d

end Parts

@[simp] theorem orders_append (o₁ o₂ : List Out) : orders (o₁ ++ o₂) = orders o₁ ++ orders o₂ :=
  List.filterMap_append

/-- Once the order is cancelled the light does nothing but wait. -/
theorem Acts.keeps_of_canc {ord : OrdInfo} (h : Acts mmid d d' o)
    (hslot : d.light.ordInfo = some ord) (hcanc : ord.canc = true) :
    Keeps d d' ∧ orders o = [] := by
  cases h with
  | idle h hsent => exact ⟨h, hsent⟩
  | cancel ord' h hsent =>
      obtain rfl := Option.some.inj (hslot.symm.trans h.slot)
      rw [h.live] at hcanc
      cases hcanc
  | place id sz px h hsent =>
      have := hslot.symm.trans h.slot
      cases this

/-- Two parts of a handler, the first of which places nothing. -/
theorem Acts.andThen {d₁ : Desk} {o₁ o₂ : List Out}
    (h₁ : Acts mmid d d₁ o₁ ∧ SameSettings d.light d₁.light) (hsent₁ : orders o₁ = [])
    (h₂ : Acts mmid d₁ d' o₂ ∧ SameSettings d₁.light d'.light) :
    Acts mmid d d' (o₁ ++ o₂) ∧ SameSettings d.light d'.light := by
  obtain ⟨hacts₁, hset₁⟩ := h₁
  have hsent : orders (o₁ ++ o₂) = orders o₂ := by rw [orders_append, hsent₁, List.nil_append]
  have hset : SameSettings d.light d'.light :=
    ⟨h₂.2.targetpos.trans hset₁.targetpos, h₂.2.ordSz.trans hset₁.ordSz⟩
  refine ⟨?_, hset⟩
  cases hacts₁ with
  | idle h hsent' =>
      have hacts := (Acts.of_keeps h₂ h.slot hset₁ h.orders h.position).1
      cases hacts with
      | idle h hnone => exact .idle h (hsent.trans hnone)
      | cancel ord h hnone => exact .cancel ord h (hsent.trans hnone)
      | place id sz px h hone => exact .place id sz px h (hsent.trans hone)
  | cancel ord h hsent' =>
      obtain ⟨hkeeps, hnone⟩ := h₂.1.keeps_of_canc h.marked rfl
      refine .cancel ord ⟨h.slot, h.live, hkeeps.slot.trans h.marked, ?_,
        hkeeps.position.trans h.position⟩ (hsent.trans hnone)
      rcases h.removed with ⟨hno, hsame⟩ | ⟨e, hid, hbit, hchange⟩
      · exact .inl ⟨hno, hsame.trans hkeeps.orders⟩
      · exact .inr ⟨e, hid, hbit, hchange.congr (.refl _) hkeeps.orders⟩
  | place id sz px h hone =>
      rw [hsent₁] at hone
      cases hone

theorem countDown_acts (h : d.countDown mmid = some (d', o)) :
    (Acts mmid d d' o ∧ SameSettings d.light d'.light) ∧ orders o = [] := by
  unfold Desk.countDown at h
  split at h
  · dsimp only at h
    split at h
    · exact ⟨Acts.of_keeps (ret_acts h) rfl ⟨rfl, rfl⟩ (.refl _) rfl, ret_sends_none h⟩
    · cases h
      exact ⟨⟨.idle ⟨rfl, .refl _, rfl⟩ rfl, rfl, rfl⟩, rfl⟩
  · cases h
    exact ⟨acts_self mmid d, rfl⟩

theorem eobHandler_opens {pl : Payload ℤ} {pt : Point} {draw : ℕ} {ack : Option ℤ} {p : Part}
    (h : d.eobHandler c mmid pl pt draw ack = some p) : Opens mmid d p := by
  unfold Desk.eobHandler at h
  dsimp only at h
  split at h
  · cases h
  · split at h
    · cases h
      exact ⟨.idle ⟨rfl, .refl _, rfl⟩ rfl, ⟨rfl, rfl⟩, rfl, fun _ _ _ h => by cases h⟩
    · unfold Light22.andThen at h
      split at h
      · cases h
      next d₁ o₁ hcount =>
        obtain ⟨p₂, hrest, heq⟩ := Option.map_eq_some_iff.mp h
        cases heq
        obtain ⟨hfirst, hsent⟩ := countDown_acts hcount
        have hcounted : Acts mmid d d₁ o₁ ∧ SameSettings d.light d₁.light :=
          Acts.of_keeps hfirst rfl ⟨rfl, rfl⟩ (.refl _) rfl
        have hopens : Opens mmid d₁ p₂ := by
          dsimp only at hrest
          split at hrest
          · exact (opens_of_ret hrest).of_keeps rfl ⟨rfl, rfl⟩ (.refl _) rfl
          · split at hrest
            · cases hrest
            · split at hrest
              · exact (opens_of_ret hrest).of_keeps rfl ⟨rfl, rfl⟩ (.refl _) rfl
              · exact (actOnBurst_opens hrest).of_keeps rfl ⟨rfl, rfl⟩ (.refl _) rfl
        obtain ⟨hacts, hset⟩ := Acts.andThen hcounted hsent ⟨hopens.acts, hopens.settings⟩
        refine ⟨hacts, hset, ?_, hopens.market⟩
        rw [orders_append, hsent, hopens.sends, List.append_nil]

theorem tradeNotifyHandler_opens {pl : Payload ℤ} {pt : Point} {draw : ℕ} {ack : Option ℤ} :
    Opens mmid d (d.tradeNotifyHandler c pl pt draw ack) := by
  unfold Desk.tradeNotifyHandler
  split
  · exact opens_self mmid d
  split
  · exact opens_self mmid d
  split
  · exact opens_self mmid d
  split
  · exact opens_self mmid d
  split
  · exact opens_self mmid d
  split
  · exact opens_self mmid d
  · exact placeIfCan_opens

theorem alarmHandler_acts {now : ℕ} {timer : TimerId}
    (h : d.alarmHandler c mmid now timer = some (d', o)) :
    (Acts mmid d d' o ∧ SameSettings d.light d'.light) ∧ orders o = [] := by
  have hself : some (d, ([] : List Out)) = some (d', o) →
      (Acts mmid d d' o ∧ SameSettings d.light d'.light) ∧ orders o = [] := by
    intro hidle
    cases hidle
    exact ⟨acts_self mmid d, rfl⟩
  cases timer with
  | aggrTtl =>
      unfold Desk.alarmHandler at h
      dsimp only at h
      split at h
      · exact hself h
      · split at h
        · exact ⟨Acts.of_keeps (cancelOrder_acts h) rfl ⟨rfl, rfl⟩ (.refl _) rfl,
            cancelOrder_sends_none h⟩
        · exact hself h
  | delayedCancel =>
      unfold Desk.alarmHandler at h
      dsimp only at h
      split at h
      · exact ⟨Acts.of_keeps (cancelOrder_acts h) rfl ⟨rfl, rfl⟩ (.refl _) rfl,
          cancelOrder_sends_none h⟩
      · exact hself h
  | unsuspend | resetLastTradePrice | other => exact hself h

/-- The order a message of the order manager is about. -/
def Msg.about : Msg → Option ℤ
  | .fill id _ _ | .cancAck id | .cancReject id _ | .reject id _ => some id
  | _ => none

/-- A message that sets the target or the order size. -/
def Msg.resets : Msg → Bool
  | .set (.targetPos _) | .set (.levOrdersMax _) => true
  | _ => false

/-- The first part of the handler of a market message, a timer or a setting. -/
theorem start_opens {m : Msg} {p : Part} (hm : m.about = none) (hfixed : m.resets = false)
    (h : d.start c mmid m = some p) : Opens mmid d p := by
  cases m with
  | endOfBurst pl pt draw ack => exact eobHandler_opens h
  | tradeNotify pl pt draw ack =>
      cases h
      exact tradeNotifyHandler_opens
  | fill id sz stbf => cases hm
  | cancAck id => cases hm
  | cancReject id reason => cases hm
  | reject id reason => cases hm
  | gapDetected => exact opens_of_ret h
  | clear =>
      refine opens_of_last h fun d' o hr => ?_
      obtain ⟨⟨d₁, o₁⟩, hcancel, heq⟩ := Option.map_eq_some_iff.mp hr
      cases heq
      obtain ⟨hacts, hset⟩ := cancelOrder_acts hcancel
      have hsent := cancelOrder_sends_none hcancel
      refine ⟨⟨?_, hset.targetpos, hset.ordSz⟩, hsent⟩
      cases hacts with
      | idle h hsent => exact .idle ⟨h.slot, h.orders, h.position⟩ hsent
      | cancel ord h hsent =>
          exact .cancel ord ⟨h.slot, h.live, h.marked, h.removed, h.position⟩ hsent
      | place id sz px h hone =>
          rw [hsent] at hone
          cases hone
  | alarm timer now => exact opens_of_last h fun _ _ => alarmHandler_acts
  | start | stop =>
      cases h
      exact ⟨.idle ⟨rfl, .refl _, rfl⟩ rfl, ⟨rfl, rfl⟩, rfl, fun _ _ _ h => by cases h⟩
  | set key =>
      cases key with
      | targetPos v => cases hfixed
      | levOrdersMax v => cases hfixed
      | tradingOff => exact (opens_of_ret h).of_keeps rfl ⟨rfl, rfl⟩ (.refl _) rfl
      | subscribeOnly | dump | tradingOn =>
          cases h
          exact ⟨.idle ⟨rfl, .refl _, rfl⟩ rfl, ⟨rfl, rfl⟩, rfl, fun _ _ _ h => by cases h⟩
      | other => cases h

section Parts

variable {p q t : Part} {r r' : Rest}

/-- The next part of the handler of such a message. -/
theorem resume_soFar (hr : ∀ id sz stbf, r ≠ .addPosition id sz stbf)
    (h : d.resume c mmid r = some p) : SoFar mmid d p := by
  cases r with
  | readTotal pl pt alreadyGated draw ack =>
      cases h
      exact readTotal_opens.soFar
  | sizeAndPlace pl workOrds alreadyGated draw ack =>
      obtain ⟨hplace, hlast⟩ := lastPart_some h
      obtain ⟨⟨hacts, hset⟩, -⟩ := sizeAndPlace_acts hplace
      refine ⟨hacts, hset, fun hmore => absurd hlast hmore, fun _ _ _ hrest => ?_⟩
      rw [hlast] at hrest
      cases hrest
  | readLevel px pos pt => exact (readLevel_opens h).soFar
  | cancelOrder => exact (opens_of_cancel h).soFar
  | addPosition id sz stbf => exact absurd rfl (hr id sz stbf)

theorem SoFar.andNext (hp : SoFar mmid d p) (h : p.andNext c mmid = some q) :
    SoFar mmid d q := by
  unfold Part.andNext at h
  split at h
  · cases h
    exact hp
  next r hrest =>
    obtain ⟨next, hnext, heq⟩ := Option.map_eq_some_iff.mp h
    cases heq
    have hr : ∀ id sz stbf, r ≠ .addPosition id sz stbf := by
      rintro id sz stbf rfl
      exact hp.market id sz stbf hrest
    have hsofar := resume_soFar hr hnext
    have hfirst : orders p.out = [] := by
      refine hp.sends ?_
      rw [hrest]
      exact Option.some_ne_none r
    obtain ⟨hacts, hset⟩ :=
      Acts.andThen ⟨hp.acts, hp.settings⟩ hfirst ⟨hsofar.acts, hsofar.settings⟩
    refine ⟨hacts, hset, fun hmore => ?_, hsofar.market⟩
    rw [orders_append, hfirst, hsofar.sends hmore, List.append_nil]

/-- Two parts more may follow. -/
def Rest.more : Rest → Bool
  | .readTotal .. | .readLevel .. => true
  | _ => false

theorem resume_more (h : d.resume c mmid r = some p) (hrest : p.rest = some r') :
    r.more = true ∧ r'.more = false := by
  cases r with
  | readTotal pl pt alreadyGated draw ack =>
      cases h
      unfold Desk.readTotal at hrest
      dsimp only at hrest
      split at hrest
      · cases hrest
      · split at hrest
        · cases hrest
        · split at hrest
          · cases hrest
          · cases hrest
            exact ⟨rfl, rfl⟩
  | readLevel px pos pt =>
      refine ⟨rfl, ?_⟩
      simp only [Desk.resume, Desk.readLevel] at h
      split at h
      · cases h
        cases hrest
        rfl
      · split at h
        · cases h
        · split at h
          · cases h
            cases hrest
            rfl
          · cases h
            cases hrest
  | sizeAndPlace _ _ _ _ _ | cancelOrder | addPosition _ _ _ =>
      rw [(lastPart_some h).2] at hrest
      cases hrest

/-- **No handler has more than three parts**, so `handle` is the whole of it. -/
theorem andNext_done (h : p.andNext c mmid = some q) (h' : q.andNext c mmid = some t) :
    t.rest = none := by
  unfold Part.andNext at h
  split at h
  next hrest =>
    cases h
    unfold Part.andNext at h'
    rw [hrest] at h'
    cases h'
    exact hrest
  next r hrest =>
    obtain ⟨next, hnext, heq⟩ := Option.map_eq_some_iff.mp h
    cases heq
    unfold Part.andNext at h'
    split at h'
    next hlast =>
      cases h'
      exact hlast
    next r' hrest' =>
      obtain ⟨next', hnext', heq'⟩ := Option.map_eq_some_iff.mp h'
      cases heq'
      obtain ⟨-, hlast⟩ := resume_more hnext hrest'
      rcases hdone : next'.rest with _ | r''
      · rfl
      · rw [(resume_more hnext' hdone).1] at hlast
        cases hlast

end Parts

/-- A handler of one part. -/
theorem handle_of_lastPart {m : Msg} {r : Option (Desk × List Out)}
    (h : d.start c mmid m = lastPart r) : d.handle c mmid m = r := by
  unfold Desk.handle
  rw [h]
  rcases r with _ | ⟨d', o⟩
  · rfl
  · rfl

/-- **What the market and the console make a light do.** -/
theorem handle_acts {m : Msg} (hm : m.about = none) (h : d.handle c mmid m = some (d', o)) :
    Acts mmid d d' o ∧ (m.resets = false → SameSettings d.light d'.light) := by
  cases hfixed : m.resets with
  | false =>
      obtain ⟨p, hstart, hrest⟩ := Option.bind_eq_some_iff.mp h
      obtain ⟨q, hsecond, hthird⟩ := Option.bind_eq_some_iff.mp hrest
      obtain ⟨t, hthird, heq⟩ := Option.map_eq_some_iff.mp hthird
      have hdone := ((start_opens hm hfixed hstart).soFar.andNext hsecond).andNext hthird
      cases heq
      exact ⟨hdone.acts, fun _ => hdone.settings⟩
  | true =>
      -- a setting has one part and touches no order
      cases m with
      | set key =>
          rw [handle_of_lastPart rfl] at h
          cases key with
          | targetPos v =>
              cases h
              exact ⟨.idle ⟨rfl, .refl _, rfl⟩ rfl, fun hm => by cases hm⟩
          | levOrdersMax v =>
              cases h
              exact ⟨.idle ⟨rfl, .refl _, rfl⟩ rfl, fun hm => by cases hm⟩
          | _ => cases hfixed
      | _ => cases hfixed

/-! ### Messages of the order manager -/

theorem clearSlot_settings (l : Light) : SameSettings l l.clearSlot := ⟨rfl, rfl⟩

/-- Up to the position a fill changes the queue, and only where it is about the order the light
    works. -/
theorem fillHandler_some {id sz stbf : ℤ} {p : Part}
    (h : d.fillHandler mmid id sz stbf = some p) :
    ∃ q, p = ⟨{ d with qcoord := q }, [], some (.addPosition id sz stbf)⟩ ∧
      (q = d.qcoord ∧ (∀ ord, d.light.ordInfo = some ord → id = ord.oid → ord.canc = true) ∨
        ∃ ord r, d.light.ordInfo = some ord ∧ id = ord.oid ∧ ord.canc = false ∧
          d.qcoord.removeOrder ord.px sz mmid id false = some (q, r)) := by
  obtain ⟨q, hq, rfl⟩ := Option.map_eq_some_iff.mp h
  refine ⟨q, rfl, ?_⟩
  split at hq
  next hslot =>
    cases hq
    refine .inl ⟨rfl, fun ord hord => ?_⟩
    rw [hslot] at hord
    cases hord
  next ord hslot =>
    split at hq
    next hother =>
      cases hq
      refine .inl ⟨rfl, fun ord' hord hid => ?_⟩
      obtain rfl := Option.some.inj (hslot.symm.trans hord)
      exact hother.resolve_left (not_not_intro hid)
    next hown =>
      rw [not_or, not_not] at hown
      obtain ⟨⟨q', r⟩, hrem, heq⟩ := Option.map_eq_some_iff.mp hq
      cases heq
      exact .inr ⟨ord, r, hslot, hown.1, Bool.eq_false_iff.mpr hown.2, hrem⟩

/-- From the position on: a fill that leaves nothing to be filled clears the slot, whichever
    order it is about. -/
theorem addPosition_some {sz stbf : ℤ} (h : d.addPosition c sz stbf = some (d', o)) :
    o = [] ∧ SameSettings d.light d'.light ∧ 0 ≤ stbf ∧
      d'.position = addPosition c.side d.position sz ∧ d'.qcoord = d.qcoord ∧
      d'.light.ordInfo = (if stbf = 0 then none else d.light.ordInfo) := by
  unfold Desk.addPosition at h
  dsimp only at h
  split at h
  · cases h
  next hneg =>
    have hle : 0 ≤ stbf := Int.not_lt.mp hneg
    split at h
    next hzero =>
      cases h
      refine ⟨rfl, clearSlot_settings _, hle, rfl, rfl, ?_⟩
      rw [if_pos (by omega)]
      rfl
    next hmore =>
      cases h
      refine ⟨rfl, ⟨rfl, rfl⟩, hle, rfl, rfl, ?_⟩
      rw [if_neg (by omega)]

/-- The two parts of a fill. -/
theorem handle_fill (c : Cfg) (mmid : ℕ) (d : Desk) (id sz stbf : ℤ) :
    d.handle c mmid (.fill id sz stbf) =
      (d.fillHandler mmid id sz stbf).bind fun p => p.desk.addPosition c sz stbf := by
  unfold Desk.handle Desk.start
  dsimp only
  rcases hfill : d.fillHandler mmid id sz stbf with _ | p
  · rfl
  · obtain ⟨q, rfl, -⟩ := fillHandler_some hfill
    simp only [Option.bind_some, Part.andNext, Desk.resume]
    rcases Desk.addPosition c { d with qcoord := q } sz stbf with _ | ⟨d', o⟩
    · rfl
    · rfl

theorem fill_cases {id sz stbf : ℤ} (h : d.handle c mmid (.fill id sz stbf) = some (d', o)) :
    0 ≤ stbf ∧ d'.light.ordInfo = (if stbf = 0 then none else d.light.ordInfo) ∧
      (d'.qcoord = d.qcoord ∧
          (∀ ord, d.light.ordInfo = some ord → id = ord.oid → ord.canc = true) ∨
        ∃ ord r, d.light.ordInfo = some ord ∧ id = ord.oid ∧ ord.canc = false ∧
          d.qcoord.removeOrder ord.px sz mmid id false = some (d'.qcoord, r)) := by
  rw [handle_fill] at h
  obtain ⟨p, hfirst, hsecond⟩ := Option.bind_eq_some_iff.mp h
  obtain ⟨q, rfl, hqueue⟩ := fillHandler_some hfirst
  obtain ⟨-, -, hle, -, hsame, hslot⟩ := addPosition_some hsecond
  obtain rfl : d'.qcoord = q := hsame
  exact ⟨hle, hslot, hqueue⟩

/-- A cancel ack clears the slot of the order it names.  Where no cancel was asked for it
    takes the order of the slot out of the queue, whichever order it names. -/
theorem cancAck_cases {id : ℤ} (h : d.cancAckHandler mmid id = some (d', o)) :
    o = [] ∧ SameSettings d.light d'.light ∧ d'.position = d.position ∧
      ∃ ord, d.light.ordInfo = some ord ∧
        d'.light.ordInfo = (if id = ord.oid then none else some ord) ∧
        (id ∈ d.light.cancelRequests ∧ d'.qcoord = d.qcoord ∨
          id ∉ d.light.cancelRequests ∧ Removes d.qcoord d'.qcoord ord.px mmid ord.oid) := by
  unfold Desk.cancAckHandler at h
  split at h
  · cases h
  next ord hslot =>
    obtain ⟨d₁, hd₁, heq⟩ := Option.map_eq_some_iff.mp h
    have hfirst : d₁.light.ordInfo = some ord ∧ SameSettings d.light d₁.light ∧
        d₁.position = d.position ∧
        (id ∈ d.light.cancelRequests ∧ d₁.qcoord = d.qcoord ∨
          id ∉ d.light.cancelRequests ∧ Removes d.qcoord d₁.qcoord ord.px mmid ord.oid) := by
      split at hd₁
      next hasked =>
        cases hd₁
        exact ⟨hslot, ⟨rfl, rfl⟩, rfl, .inl ⟨hasked, rfl⟩⟩
      next hnot =>
        obtain ⟨⟨q, r⟩, hrem, heq⟩ := Option.map_eq_some_iff.mp hd₁
        cases heq
        exact ⟨hslot, ⟨rfl, rfl⟩, rfl, .inr ⟨hnot, (removeOrder_all hrem).2⟩⟩
    obtain ⟨hsame, hset, hpos, hqueue⟩ := hfirst
    cases heq
    refine ⟨rfl, ?_, ?_, ord, hslot, ?_, ?_⟩
    · split
      · exact ⟨hset.targetpos, hset.ordSz⟩
      · exact hset
    · split <;> exact hpos
    · split
      · rfl
      · exact hsame
    · split <;> exact hqueue

/-- The reasons of a cancel reject that clear the slot of the order named. -/
def CancRejReason.clears : CancRejReason → Bool
  | .fromExchange | .fromExchangeBusinessReject | .notFound | .disconnected | .notLoggedIn
  | .unknown => true
  | _ => false

theorem rejNamed_cases {id : ℤ} {other count : Light → Light}
    (hother : ∀ l, SameSettings l (other l) ∧ (other l).ordInfo = l.ordInfo)
    (hcount : ∀ l, SameSettings l (count l) ∧ (count l).ordInfo = l.ordInfo)
    (h : d.rejNamed id other count = some (d', o)) :
    o = [] ∧ SameSettings d.light d'.light ∧ d'.qcoord = d.qcoord ∧ d'.position = d.position ∧
      ∃ ord, d.light.ordInfo = some ord ∧
        d'.light.ordInfo = if id = ord.oid then none else some ord := by
  obtain ⟨ord, hslot, heq⟩ := Option.map_eq_some_iff.mp h
  cases heq
  refine ⟨rfl, ?_, rfl, rfl, ord, hslot, ?_⟩
  · obtain ⟨hset, -⟩ := hcount (if id = ord.oid then d.light.clearSlot else other d.light)
    have hfirst : SameSettings d.light
        (if id = ord.oid then d.light.clearSlot else other d.light) := by
      split
      · exact clearSlot_settings _
      · exact (hother _).1
    exact ⟨hset.targetpos.trans hfirst.targetpos, hset.ordSz.trans hfirst.ordSz⟩
  · dsimp only
    rw [(hcount _).2]
    split
    · rfl
    · exact (hother _).2.trans hslot

/-- A cancel reject cancels the order the light works (not acked), clears the slot of the order
    named, or leaves both. -/
theorem cancRej_cases {id : ℤ} {reason : CancRejReason}
    (h : d.cancRejHandler mmid id reason = some (d', o)) :
    orders o = [] ∧ SameSettings d.light d'.light ∧
      (reason = .notAcked ∧ Acts mmid d d' o ∨
        reason.clears = true ∧ d'.qcoord = d.qcoord ∧ d'.position = d.position ∧
          (∃ ord, d.light.ordInfo = some ord ∧
            d'.light.ordInfo = if id = ord.oid then none else some ord) ∨
        reason ≠ .notAcked ∧ reason.clears = false ∧ Keeps d d') := by
  have hexchange : d.rejNamed id (fun l => l) countFromExchange = some (d', o) → _ :=
    rejNamed_cases (fun _ => ⟨⟨rfl, rfl⟩, rfl⟩) (fun _ => ⟨⟨rfl, rfl⟩, rfl⟩)
  have hunexpected : d.rejNamed id (fun l => { l with skip := 100 }) countUnknown =
      some (d', o) → _ :=
    rejNamed_cases (fun _ => ⟨⟨rfl, rfl⟩, rfl⟩) (fun _ => ⟨⟨rfl, rfl⟩, rfl⟩)
  cases reason with
  | notAcked =>
      obtain ⟨hacts, hset⟩ := cancelOrder_acts h
      have hslept : Acts mmid d d' o ∧ SameSettings d.light d'.light :=
        Acts.of_keeps ⟨hacts, hset⟩ rfl ⟨rfl, rfl⟩ (.refl _) rfl
      exact ⟨cancelOrder_sends_none h, hslept.2, .inl ⟨rfl, hslept.1⟩⟩
  | internalOidToCanc | rejectOnMod | throttle =>
      cases h
      exact ⟨rfl, ⟨rfl, rfl⟩, .inr (.inr ⟨by decide, rfl, rfl, .refl _, rfl⟩)⟩
  | filledAlready | cancelledAlready | rejectedPreviously =>
      cases h
      exact ⟨rfl, ⟨rfl, rfl⟩, .inr (.inr ⟨by decide, rfl, .refl _⟩)⟩
  | fromExchange | fromExchangeBusinessReject =>
      obtain ⟨rfl, hset, hq, hpos, hslot⟩ := hexchange h
      exact ⟨rfl, hset, .inr (.inl ⟨rfl, hq, hpos, hslot⟩)⟩
  | notFound | disconnected | notLoggedIn | unknown =>
      obtain ⟨rfl, hset, hq, hpos, hslot⟩ := hunexpected h
      exact ⟨rfl, hset, .inr (.inl ⟨rfl, hq, hpos, hslot⟩)⟩

/-- A reject takes the order of the slot out of the queue and clears the slot, whichever order
    it names. -/
theorem reject_cases {reason : RejReason} (h : d.rejectHandler mmid reason = some (d', o)) :
    orders o = [] ∧ SameSettings d.light d'.light ∧ d'.position = d.position ∧
      d'.light.ordInfo = none ∧
      (d.light.ordInfo = none ∧ d'.qcoord = d.qcoord ∨
        ∃ ord, d.light.ordInfo = some ord ∧ Removes d.qcoord d'.qcoord ord.px mmid ord.oid) := by
  unfold Desk.rejectHandler at h
  obtain ⟨q, hq, heq⟩ := Option.map_eq_some_iff.mp h
  have hqueue : (d.light.ordInfo = none ∧ q = d.qcoord ∨
      ∃ ord, d.light.ordInfo = some ord ∧ Removes d.qcoord q ord.px mmid ord.oid) := by
    split at hq
    next hslot =>
      cases hq
      exact .inl ⟨hslot, rfl⟩
    next ord hslot =>
      obtain ⟨⟨q', r⟩, hrem, heq⟩ := Option.map_eq_some_iff.mp hq
      cases heq
      exact .inr ⟨ord, hslot, (removeOrder_all hrem).2⟩
  have hpause : orders (rejectPause d.light reason).2 = [] ∧
      SameSettings d.light (rejectPause d.light reason).1 := by
    cases reason <;> exact ⟨rfl, rfl, rfl⟩
  cases heq
  exact ⟨hpause.1, ⟨hpause.2.targetpos, hpause.2.ordSz⟩, rfl, rfl, hqueue⟩

/-! ### The queue after a message -/

/-- The queue stays, or one entry of the light changes to one with a size, or goes. -/
def QueueMove (mmid : ℕ) (q q' : QCoord) : Prop :=
  SameOrders q q' ∨ ∃ px before after, Changes q q' px mmid before after ∧
    ∀ e, after = some e → 0 < e.sz ∧ mmid < kMaxMmid

theorem Removes.move {q q' : QCoord} {px id : ℤ} (h : Removes q q' px mmid id) :
    QueueMove mmid q q' := by
  rcases h with ⟨-, hsame⟩ | ⟨e, -, -, hchange⟩
  · exact .inl hsame
  · exact .inr ⟨px, _, _, hchange, fun e he => by cases he⟩

theorem Acts.move (h : Acts mmid d d' o) : QueueMove mmid d.qcoord d'.qcoord := by
  cases h with
  | idle h hsent => exact .inl h.orders
  | cancel ord h hsent => exact h.removed.move
  | place id sz px h hsent =>
      refine .inr ⟨px, _, _, h.added, fun e he => ?_⟩
      obtain rfl := Option.some.inj he
      exact ⟨h.pos, h.inRange⟩

theorem SameOrders.of_eq {q q' : QCoord} (h : q' = q) : SameOrders q q' := h ▸ .refl _

/-- **Every message** leaves the queue or moves one entry of its own light. -/
theorem handle_move {m : Msg} (h : d.handle c mmid m = some (d', o)) :
    QueueMove mmid d.qcoord d'.qcoord := by
  cases hm : m.about with
  | none => exact (handle_acts hm h).1.move
  | some id =>
      cases m with
      | fill id sz stbf =>
          obtain ⟨-, -, ⟨hsame, -⟩ | ⟨ord, r, -, -, -, hrem⟩⟩ := fill_cases h
          · exact .inl (.of_eq hsame)
          · rcases removeOrder_some hrem with ⟨-, hsame, -⟩ | ⟨e, -, hle, hbit, hcase⟩
            · exact .inl (.of_eq hsame)
            · rcases hcase with ⟨-, -, hchange⟩ | ⟨-, -, hne, -, hchange⟩
              · exact .inr ⟨ord.px, _, _, hchange, fun e he => by cases he⟩
              · refine .inr ⟨ord.px, _, _, hchange, fun e' he => ?_⟩
                obtain rfl := Option.some.inj he
                exact ⟨by dsimp only; omega, hbit.1⟩
      | cancAck id =>
          rw [handle_of_lastPart rfl] at h
          obtain ⟨-, -, -, ord, -, -, ⟨-, hsame⟩ | ⟨-, hrem⟩⟩ := cancAck_cases h
          · exact .inl (.of_eq hsame)
          · exact hrem.move
      | cancReject id reason =>
          rw [handle_of_lastPart rfl] at h
          obtain ⟨-, -, ⟨-, hacts⟩ | ⟨-, hsame, -⟩ | ⟨-, -, hkeeps⟩⟩ := cancRej_cases h
          · exact hacts.move
          · exact .inl (.of_eq hsame)
          · exact .inl hkeeps.orders
      | reject id reason =>
          rw [handle_of_lastPart rfl] at h
          obtain ⟨-, -, -, -, ⟨-, hsame⟩ | ⟨ord, -, hrem⟩⟩ := reject_cases h
          · exact .inl (.of_eq hsame)
          · exact hrem.move
      | _ => cases hm

/-- The other lights' entries stay. -/
theorem QueueMove.frame {q q' : QCoord} (h : QueueMove mmid q q') {m : ℕ} (hne : m ≠ mmid) :
    (∀ px, q'.entry px m = q.entry px m) ∧ q'.mmidOrders m = q.mmidOrders m := by
  rcases h with hsame | ⟨px, before, after, hchange, -⟩
  · exact ⟨fun px => hsame.entry px m, congrFun hsame.mmidOrders m⟩
  · refine ⟨fun p => ?_, ?_⟩
    · rw [hchange.entry, if_neg fun hpm => hne hpm.2]
    · rw [hchange.bit, if_neg hne]

theorem QueueMove.sound {q q' : QCoord} (h : QueueMove mmid q q') (hq : q.Sound) : q'.Sound := by
  rcases h with hsame | ⟨px, before, after, hchange, hafter⟩
  · exact hsame.sound hq
  · exact hchange.sound hafter hq

end KasparHft.Light22
