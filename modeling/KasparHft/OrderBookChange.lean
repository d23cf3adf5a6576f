import KasparHft.OrderBookMap
import KasparHft.OrderBookReached

/-!
# What a Change does

A Change of an order that is held either moves it or reduces it.  Where its price moves or its
size grows it is deleted and added again under a new id, at the tail of its new queue; else it
keeps its place and its id.  The executions the record releases and the orders of ours it lets
through come before, and change no order of the exchange.

In live an order that moves takes away the orders of the other side that it crosses.
-/

namespace KasparHft.OB

open AssocMap FillSlate Machine Registry

variable {Px : Type} {cfg : FeedCfg} {ops : PriceOps Px} {s s' : State Px}

/-! ### The add of an exchange order, in simulation and in live -/

/-- What an order that comes in leaves of the others: in live it takes away those it crosses. -/
def leftBy (cfg : Cfg) (side : Side) (px : ℤ) (rest : Side × ℤ → List (LongId × ℤ))
    (l : Side × ℤ) : List (LongId × ℤ) :=
  if cfg.doCrossCheck = false ∧ l.1 = side.other ∧ Crosses side px l.2 then [] else rest l

/-- An order comes in at a level. -/
def joinedBy (cfg : Cfg) (side : Side) (px : ℤ) (x : LongId × ℤ)
    (rest : Side × ℤ → List (LongId × ℤ)) (l : Side × ℤ) : List (LongId × ℤ) :=
  leftBy cfg side px rest l ++ if l = (side, px) then [x] else []

theorem leftBy_own {c : Cfg} {side : Side} {px : ℤ} {rest : Side × ℤ → List (LongId × ℤ)} (p : ℤ) :
    leftBy c side px rest (side, p) = rest (side, p) := by
  refine if_neg ?_
  rintro ⟨-, hside, -⟩
  revert hside
  cases side <;> exact nofun

/-- **The add of an exchange order.** -/
theorem add_joins {c : Cfg} {currtim : ℕ} {b b' : Book} {a : AddArgs} {n : List Note}
    (hb : Live c b.noSims) (hid : isSim a.id = false) (hpx : 0 < a.px ∧ a.px < c.maxprice)
    (h : b.add c currtim a = some (b', n)) :
    b'.resting = joinedBy c a.side a.px (a.id, a.sz) b.resting := by
  funext l
  obtain ⟨side, p⟩ := l
  unfold joinedBy
  rcases hmode : c.doCrossCheck with _ | _
  · -- in live, on the book without our orders
    obtain ⟨n', hadd⟩ := add_noSims hid h
    obtain ⟨hremoved, hkept, happended, -⟩ := add_uncrosses hmode hb hid hpx hadd
    rw [← resting_noSims b', ← resting_noSims b]
    by_cases hside : side = a.side
    · subst hside
      rw [leftBy_own]
      unfold Book.resting
      dsimp only
      rw [happended, Function.update_apply]
      by_cases hp : p = a.px
      · subst hp
        have hreal : a.order.isSim = false := hid
        rw [if_pos rfl, if_pos rfl, reals_append, reals_cons_of_real hreal, reals_nil,
          List.map_append]
        rfl
      · rw [if_neg hp, if_neg (fun heq => hp (congrArg Prod.snd heq)), List.append_nil]
    · have hother : side = a.side.other := by
        revert hside
        cases a.side <;> cases side <;> intro hside <;> first | rfl | exact absurd rfl hside
      rw [if_neg (fun heq => hside (congrArg Prod.fst heq)), List.append_nil]
      subst hother
      unfold leftBy Book.resting
      dsimp only
      by_cases hcross : Crosses a.side a.px p
      · rw [if_pos ⟨hmode, rfl, hcross⟩, hremoved p hcross]
        rfl
      · rw [if_neg (fun hc => hcross hc.2.2), hkept p hcross]
  · -- in simulation
    have hleft : leftBy c a.side a.px b.resting (side, p) = b.resting (side, p) :=
      if_neg fun hc => Bool.noConfusion (hmode.symm.trans hc.1)
    rw [add_resting hmode hid hpx.2 h, Function.update_apply, hleft]
    split
    next heq => rw [heq]
    · exact (List.append_nil _).symm

/-! ### What comes before a record's own payload -/

/-- The exchange's orders stay where they are, and every queue follows. -/
structure Rests (cfg : FeedCfg) (s s' : State Px) : Prop where
  kept : Kept s s'
  follows : s.book.FollowedBy s'.book
  live : Live cfg.toCfg s.book.noSims → Live cfg.toCfg s'.book.noSims

theorem Rests.of_book (hkept : Kept s s') (hbook : s'.book = s.book) : Rests cfg s s' where
  kept := hkept
  follows := .of_qs fun side => by rw [hbook]
  live hs := hbook ▸ hs

theorem Rests.refl (s : State Px) : Rests cfg s s := .of_book (Kept.refl s) rfl

theorem Rests.trans {s₁ : State Px} (h : Rests cfg s s₁) (h' : Rests cfg s₁ s') :
    Rests cfg s s' where
  kept := h.kept.kept h'.kept
  follows := h.follows.trans h'.follows
  live hs := h'.live (h.live hs)

theorem Rests.onlySims (h : Rests cfg s s') (hs : OnlySims s) : OnlySims s' :=
  fun p hp => hs p (h.kept.delQ p hp)

/-- The queues follow a payload that is no add of an exchange order. -/
theorem processMarketData_follows {pl : Pl} {sender : Option ℕ} {o : List Sent}
    (hmev : pl.mev = .add ∧ pl.isSim = true ∨ pl.mev = .mod)
    (h : s.processMarketData cfg pl sender = some (s', o)) : s.book.FollowedBy s'.book := by
  obtain ⟨-, b, currtim, n, hlike, hstep⟩ := processMarketData_step (hmev.imp And.left id) h
  refine (Book.FollowedBy.of_qs hlike.qs).trans (step_follows ?_ ?_ hstep)
  · intro currtim' a heq
    rcases hmev with ⟨hadd, hsim⟩ | hmod
    · unfold Pl.call at heq
      rw [hadd] at heq
      cases heq
      exact hsim
    · unfold Pl.call at heq
      rw [hmod] at heq
      cases heq
  · intro heq
    unfold Pl.call at heq
    split at heq <;> cases heq

theorem sim_rests {p : SimPl} {sender : Option ℕ} {o : List Sent} (hsim : p.isSim = true)
    (h : s.processMarketData cfg p.toPl sender = some (s', o)) : Rests cfg s s' where
  kept := processMarketData_sim hsim h
  follows := processMarketData_follows (p.mev_eq.imp (fun hadd => ⟨hadd, hsim⟩) id) h
  live hs := processMarketData_live hs h

theorem Pops.rests {tim : ℕ} {sims : List (SimPl × Option ℕ)} {o : List Sent}
    (h : Pops cfg tim s sims o s') (hs : OnlySims s) : Rests cfg s s' := by
  induction h with
  | nil s => exact .refl s
  | @cons s s₁ s' p sender q sims o o' hhead hdue happly hrest ih =>
      have hone := sim_rests (hs _ (by rw [hhead]; exact List.mem_cons_self)) happly
      have htail : ∀ x ∈ q, x ∈ s.delQ := by
        rw [hhead]
        exact fun x hx => List.mem_cons_of_mem _ hx
      have hpop : Rests cfg s { s₁ with delQ := q } :=
        ⟨⟨hone.kept.ordermap, hone.kept.execSlate, hone.kept.bookoid, htail, hone.kept.resting⟩,
          hone.follows, hone.live⟩
      exact hpop.trans (ih fun x hx => hs x (htail x hx))

/-- **Before a record's own payload** `process_q` only lets our orders through. -/
theorem processQ_parts {pl : Pl} {o : List Sent} (hs : OnlySims s) (hpos : 0 < pl.px)
    (h : s.processQ cfg pl = some (s', o)) :
    pl.isSim = false ∧ ∃ s₁ o₁, Rests cfg s s₁ ∧
      s₁.processMarketData cfg pl none = some (s', o₁) := by
  rcases processQ_cases h with ⟨hpx, -⟩ | ⟨-, hreal, t, s₁, o₁, o₂, hpop, happly, -⟩
  · omega
  · have hstamp : Rests cfg s { s with lastProcessedTs := t } :=
      .of_book ⟨rfl, rfl, rfl, fun _ hp => hp, rfl⟩ rfl
    obtain ⟨sims, hpops, -⟩ := popDelQ_pops (s := { s with lastProcessedTs := t }) rfl hpop
    exact ⟨hreal, s₁, o₂, hstamp.trans (hpops.rests (hstamp.onlySims hs)), happly⟩

/-- A payload on an exchange order that is there. -/
theorem mod_applied {pl : Pl} {o : List Sent} (hmod : pl.mev = .mod)
    (hact : pl.action = .exec ∨ pl.px < cfg.maxprice ∧ (pl.action = .canc ∨ pl.action = .cancd))
    (hreal : pl.isSim = false) (h : s.processMarketData cfg pl none = some (s', o)) :
    Becomes s (pl.effect s.book.resting) s' ∧ s.book.FollowedBy s'.book := by
  obtain ⟨b, currtim, b', n, hb, hstep, hbec⟩ := processMarketData_becomes (.inr hmod) h
  rw [step_mod_effect hmod hact hreal hstep, hb] at hbec
  exact ⟨hbec, processMarketData_follows (.inr hmod) h⟩

/-- The payload of an exchange order that comes in. -/
theorem add_applied {pl : Pl} {o : List Sent} (hadd : pl.mev = .add) (hreal : pl.isSim = false)
    (hlt : pl.px < cfg.maxprice) (hlive : Live cfg.toCfg s.book.noSims)
    (h : s.processMarketData cfg pl none = some (s', o)) :
    Becomes s (joinedBy cfg.toCfg pl.side pl.px (pl.orderRef, pl.sz) s.book.resting) s' ∧
      ∃ x, x.id = pl.orderRef ∧ x.sz = pl.sz ∧ s.book.Appends pl.side pl.px x s'.book := by
  obtain ⟨_, _, _, _, -, -, hbec⟩ := processMarketData_becomes (.inl hadd) h
  obtain ⟨hpos, b, currtim, n, hlike, hstep⟩ := processMarketData_step (.inl hadd) h
  unfold Pl.call at hstep
  rw [hadd] at hstep
  obtain ⟨a, hid, hside, hpx, hsz, hcall⟩ : ∃ a : AddArgs, a.id = pl.orderRef ∧ a.side = pl.side ∧
      a.px = pl.px ∧ a.sz = pl.sz ∧ b.add cfg.toCfg currtim a = some (s'.book, n) :=
    ⟨_, rfl, rfl, rfl, rfl, hstep⟩
  rw [← hpx] at hpos hlt ⊢
  rw [← hid, ← hside, ← hsz]
  have hreal : isSim a.id = false := by
    rw [hid]
    exact hreal
  have hjoins := add_joins (hlike.live hlive) hreal ⟨hpos, hlt⟩ hcall
  have hrest : b.resting = s.book.resting := resting_congr_qs fun side p => by rw [hlike.qs]
  rw [hrest] at hjoins
  refine ⟨⟨hbec.ordermap, hbec.execSlate, hbec.bookoid, hbec.delQ, hjoins⟩, a.order, rfl, rfl, ?_⟩
  obtain ⟨hlast, hothers⟩ := add_appends hreal hlt hcall
  constructor
  · rw [hlast, hlike.qs]
  · intro side p hnot
    rw [← hlike.qs]
    exact hothers side p hnot

theorem releaseExec_rests {f : Released Px Pl} {o : List Sent} (hs : OnlySims s)
    (hf : f.fill.pl.IsExec) (h : s.releaseExec cfg f = some (s', o)) : Rests cfg s s' := by
  rcases releaseExec_cases h with ⟨rfl, -⟩ | ⟨s₁, hq, rfl⟩
  · exact .refl s'
  · have hexec : Rests cfg s s₁ := by
      rcases processQ_cases hq with ⟨-, rfl, -⟩ | ⟨hpos, -⟩
      · exact .refl s₁
      · obtain ⟨hreal, s₂, o₂, hrests, happly⟩ := processQ_parts hs hpos hq
        obtain ⟨hbec, hfollows⟩ := mod_applied hf.1 (.inl hf.2) hreal happly
        rw [hf.effect] at hbec
        exact hrests.trans ⟨hbec, hfollows, fun hs => processMarketData_live hs happly⟩
    exact hexec.trans (.of_book ⟨rfl, rfl, rfl, fun _ hp => hp, rfl⟩ rfl)

theorem releaseExecs_rests {fs : List (Released Px Pl)} {o : List Sent} (hs : OnlySims s)
    (hfs : ∀ f ∈ fs, f.fill.pl.IsExec) (h : releaseExecs cfg fs s = some (s', o)) :
    Rests cfg s s' := by
  induction fs generalizing s o with
  | nil =>
      cases h
      exact .refl _
  | cons f fs ih =>
      obtain ⟨hf, hfs⟩ := List.forall_mem_cons.mp hfs
      obtain ⟨s₁, o₁, o₂, hone, hrest, -⟩ := andThen_some h
      have hrests := releaseExec_rests hs hf hone
      exact hrests.trans (ih (hrests.onlySims hs) hfs hrest)

/-- Nor do the executions that a book record releases. -/
theorem processSlatedExec_parts {m : Mbo Px} {pl : Pl} {o : List Sent} (hs : OnlySims s)
    (hslate : ExecsOnly s.execSlate) (hpos : 0 < pl.px)
    (h : s.processSlatedExec cfg ops m pl = some (s', o)) :
    pl.isSim = false ∧ ∃ slate s₁ o₁, Rests cfg { s with execSlate := slate } s₁ ∧
      s₁.processMarketData cfg pl none = some (s', o₁) := by
  obtain ⟨s₁, o₁, o₂, hrel, hq, -⟩ := processSlatedExec_some h
  obtain ⟨-, hexecs⟩ :=
    hslate.onBook ops.samePx m.orderID m.transactTime m.orderUpdateAction m.pxd
  have hsims : OnlySims { s with execSlate :=
      (s.execSlate.onBook ops.samePx m.orderID m.transactTime m.orderUpdateAction m.pxd).1 } := hs
  have hreleased := releaseExecs_rests hsims hexecs hrel
  obtain ⟨hreal, s₂, o₃, hrests, happly⟩ := processQ_parts (hreleased.onlySims hs) hpos hq
  exact ⟨hreal, _, s₂, o₃, hreleased.trans hrests, happly⟩

/-! ### The size at a level -/

theorem ordersInBook_resting (b : Book) (side : Side) (p : ℤ) :
    ordersInBook (b.qs side p) = ((b.resting (side, p)).map Prod.snd).sum := by
  unfold Book.resting
  rw [List.map_map]
  rfl

section Sizes

variable {ι : Type*} [DecidableEq ι]

theorem sum_filter_ne (i : ι) (l : List (ι × ℤ)) :
    ((l.filter fun x => x.1 ≠ i).map Prod.snd).sum =
      (l.map Prod.snd).sum - ((l.filter fun x => x.1 = i).map Prod.snd).sum := by
  induction l with
  | nil => rfl
  | cons x l ih =>
      by_cases hx : x.1 = i
      · simp only [List.filter_cons, hx, ne_eq, not_true_eq_false, decide_false, decide_true,
          Bool.false_eq_true, if_false, if_true, List.map_cons, List.sum_cons] at ih ⊢
        omega
      · simp only [List.filter_cons, hx, ne_eq, not_false_eq_true, decide_false, decide_true,
          Bool.false_eq_true, if_false, if_true, List.map_cons, List.sum_cons] at ih ⊢
        omega

theorem sum_setDat (i : ι) (d : ℤ) (l : List (ι × ℤ)) :
    ((l.map fun x => if x.1 = i then (x.1, d) else x).map Prod.snd).sum =
      (l.map Prod.snd).sum - ((l.filter fun x => x.1 = i).map Prod.snd).sum +
        ((l.filter fun x => x.1 = i).map fun _ => d).sum := by
  induction l with
  | nil => rfl
  | cons x l ih =>
      by_cases hx : x.1 = i
      · simp only [List.filter_cons, hx, decide_true, if_true, List.map_cons, List.sum_cons] at ih ⊢
        omega
      · simp only [List.filter_cons, hx, decide_false, Bool.false_eq_true, if_false, List.map_cons,
          List.sum_cons] at ih ⊢
        omega

theorem filter_ne_of_filter_eq_nil {i : ι} {l : List (ι × ℤ)}
    (h : l.filter (fun x => x.1 = i) = []) : l.filter (fun x => x.1 ≠ i) = l := by
  rw [List.filter_eq_self]
  intro x hx
  have hnot := List.filter_eq_nil_iff.mp h x hx
  simpa using hnot

end Sizes

/-- A listed order is in the queue of its side and tick, once and with its size. -/
theorem MapAgrees.own (h : MapAgrees ops s) {i : ℕ} {e : OrderInfo Px}
    (he : s.ordermap.lookup i = some e) :
    (s.book.resting (e.side, ops.toPx e.px)).filter (fun x => x.1 = e.chopid) =
      [(e.chopid, (e.sz : ℤ))] := by
  obtain ⟨o, hfilter, hreal, hsz⟩ := h.listed i e he
  have hid : o.id = e.chopid := by
    have hmem : o ∈ [o] := List.mem_singleton_self o
    rw [← hfilter] at hmem
    exact eq_of_beq (List.mem_filter.mp hmem).2
  rw [← hid, filter_id_reals hreal] at hfilter
  unfold Book.resting
  dsimp only
  rw [List.filter_map, ← hid, ← hsz]
  change ((reals (s.book.qs e.side (ops.toPx e.px))).filter fun o' => o'.id == o.id).map _ = _
  rw [hfilter]
  rfl

/-- And in no other. -/
theorem MapAgrees.elsewhere (h : MapAgrees ops s) {i : ℕ} {e : OrderInfo Px}
    (he : s.ordermap.lookup i = some e) {l : Side × ℤ} (hl : l ≠ (e.side, ops.toPx e.px)) :
    (s.book.resting l).filter (fun x => x.1 = e.chopid) = [] := by
  rw [List.filter_eq_nil_iff]
  intro x hx
  obtain ⟨o, ho, -, rfl⟩ := mem_resting.mp hx
  rw [decide_eq_true_eq]
  intro hid
  obtain ⟨hside, hp⟩ := h.nowhereElse i e he l.1 l.2 o ho hid
  exact hl (Prod.ext hside hp)

/-! ### A Change -/

/-- The price of the order moves, or its size grows. -/
def Moves (ops : PriceOps Px) (m : Mbo Px) (e : OrderInfo Px) : Prop :=
  e.sz < m.displayQty ∨ ((getSide m.side).isSome ∧ ops.eq m.pxd e.px = false)

instance (ops : PriceOps Px) (m : Mbo Px) (e : OrderInfo Px) : Decidable (Moves ops m e) :=
  inferInstanceAs (Decidable (_ ∨ _))

/-- The order `e` leaves its level and comes in at the price of the record under a new id: it is
    the last of its queue, and the others stay, but for those it crosses in live. -/
structure Replaced (cfg : FeedCfg) (ops : PriceOps Px) (s : State Px) (m : Mbo Px)
    (e : OrderInfo Px) (s' : State Px) : Prop where
  listed : s'.ordermap = s.ordermap.insert m.orderID
    { e with chopid := s.nextId m, xoid := m.orderID, px := m.pxd, sz := m.displayQty }
  last : ∃ front x, s'.book.qs e.side (ops.toPx m.pxd) = front ++ [x] ∧ x.id = s.nextId m ∧
    x.sz = (m.displayQty : ℤ) ∧ Follows (s.book.qs e.side (ops.toPx m.pxd)) front
  follows : ∀ side p, ¬ (side = e.side ∧ p = ops.toPx m.pxd) →
    Follows (s.book.qs side p) (s'.book.qs side p)
  resting : s'.book.resting =
    joinedBy cfg.toCfg e.side (ops.toPx m.pxd) (s.nextId m, (m.displayQty : ℤ)) fun l =>
      (s.book.resting l).filter fun x => x.1 ≠ e.chopid
  size : ∀ p, ordersInBook (s'.book.qs e.side p) = ordersInBook (s.book.qs e.side p) -
    (if p = ops.toPx e.px then (e.sz : ℤ) else 0) +
    (if p = ops.toPx m.pxd then (m.displayQty : ℤ) else 0)

/-- The order `e` keeps its place and its id and has the size of the record; the others stay. -/
structure Reduced (ops : PriceOps Px) (s : State Px) (m : Mbo Px) (e : OrderInfo Px)
    (s' : State Px) : Prop where
  listed : s'.ordermap = s.ordermap.insert m.orderID { e with sz := m.displayQty }
  follows : s.book.FollowedBy s'.book
  resting : ∀ l, s'.book.resting l =
    (s.book.resting l).map fun x => if x.1 = e.chopid then (x.1, (m.displayQty : ℤ)) else x
  size : ∀ p, ordersInBook (s'.book.qs e.side p) = ordersInBook (s.book.qs e.side p) +
    (if p = ops.toPx e.px then (m.displayQty : ℤ) - e.sz else 0)

/-- The delete of a listed order takes it out of its level, and no other has it. -/
theorem MapAgrees.cancd_effect (h : MapAgrees ops s) {i : ℕ} {e : OrderInfo Px}
    (he : s.ordermap.lookup i = some e) {pl : Pl} (hmod : pl.mev = .mod)
    (haction : pl.action = .cancd) (hside : pl.side = e.side) (hpx : pl.px = ops.toPx e.px)
    (href : pl.orderRef = e.chopid) (l : Side × ℤ) :
    pl.effect s.book.resting l = (s.book.resting l).filter fun x => x.1 ≠ e.chopid := by
  unfold Pl.effect
  rw [hmod, haction, if_neg (by decide), if_pos rfl, hside, hpx, href, Function.update_apply]
  split
  next hl => rw [hl]
  next hl => exact (filter_ne_of_filter_eq_nil (h.elsewhere he hl)).symm

theorem MapAgrees.canc_effect (h : MapAgrees ops s) {i : ℕ} {e : OrderInfo Px}
    (he : s.ordermap.lookup i = some e) {pl : Pl} (hmod : pl.mev = .mod)
    (haction : pl.action = .canc) (hside : pl.side = e.side) (hpx : pl.px = ops.toPx e.px)
    (href : pl.orderRef = e.chopid) (l : Side × ℤ) :
    pl.effect s.book.resting l =
      (s.book.resting l).map fun x => if x.1 = e.chopid then (x.1, pl.dispSz) else x := by
  unfold Pl.effect
  rw [hmod, haction, if_neg (by decide), if_neg (by decide), if_pos rfl, hside, hpx, href,
    Function.update_apply]
  split
  next hl => rw [hl]
  next hl =>
    conv_lhs => rw [← List.map_id (s.book.resting l)]
    apply List.map_congr_left
    intro x hx
    have hnot := List.filter_eq_nil_iff.mp (h.elsewhere he hl) x hx
    exact (if_neg (by simpa using hnot)).symm

/-- What is left of a level without a listed order. -/
theorem MapAgrees.size_without (h : MapAgrees ops s) {i : ℕ} {e : OrderInfo Px}
    (he : s.ordermap.lookup i = some e) (p : ℤ) :
    (((s.book.resting (e.side, p)).filter fun x => x.1 ≠ e.chopid).map Prod.snd).sum =
      ordersInBook (s.book.qs e.side p) - (if p = ops.toPx e.px then (e.sz : ℤ) else 0) := by
  rw [sum_filter_ne, ← ordersInBook_resting]
  split
  next hp =>
    rw [hp, h.own he]
    rfl
  next hp =>
    rw [h.elsewhere he fun heq => hp (congrArg Prod.snd heq)]
    rfl

theorem cancReplace_replaced {m : Mbo Px} {e : OrderInfo Px} {o : List Sent}
    (hs : Reached cfg ops s) (hagree : MapAgrees ops s)
    (he : s.ordermap.lookup m.orderID = some e) (hpx : onLadder cfg ops m.pxd = true)
    (hsome : (getSide m.side).isSome) (h : s.cancReplace cfg ops m e = some (s', o)) :
    getSide m.side = some e.side ∧ Replaced cfg ops s m e s' := by
  obtain ⟨pl₁, s₂, o₁, pl₂, s₄, o₂, hpl₁, hdel, hpl₂, hadd, hside, rfl, -⟩ := cancReplace_some h
  have hreplace : replacePx m e = m.pxd := if_pos hsome
  obtain ⟨side, hgot⟩ := Option.isSome_iff_exists.mp hsome
  rw [hgot] at hside ⊢
  rw [hreplace] at hpl₂ ⊢
  obtain rfl : side = e.side := hside
  -- the delete
  obtain ⟨-, hside₁, hpx₁, href₁, hmev₁, haction₁, -, -⟩ := mboPayload_eq_some hpl₁
  obtain ⟨hpos, hlt⟩ := onLadder_iff.mp (hs.held.ladder _ _ he)
  rw [← hpx₁] at hpos hlt
  obtain ⟨hreal₁, slate, s₁, _, hrests₁, happly₁⟩ :=
    processSlatedExec_parts hs.sims hs.held.execs hpos hdel
  obtain ⟨hbec₁, hfollows₁⟩ := mod_applied hmev₁ (.inr ⟨hlt, .inr haction₁⟩) hreal₁ happly₁
  have hrest₂ : s₂.book.resting = fun l =>
      (s.book.resting l).filter fun x => x.1 ≠ e.chopid := by
    funext l
    rw [hbec₁.resting, hrests₁.kept.resting]
    exact hagree.cancd_effect he hmev₁ haction₁ hside₁ hpx₁ href₁ l
  have hlive₂ := processMarketData_live (hrests₁.live hs.live) happly₁
  have hsims₂ : OnlySims s₂ := fun p hp => hrests₁.onlySims hs.sims p (hbec₁.delQ p hp)
  have hnext : s₂.nextId m = s.nextId m := by
    unfold State.nextId
    rw [hbec₁.bookoid, hrests₁.kept.bookoid]
  -- the add
  obtain ⟨hvalid₂, hside₂, hpx₂, href₂, hmev₂, -, hsz₂, -⟩ := mboPayload_eq_some hpl₂
  obtain ⟨hpos', hlt'⟩ := onLadder_iff.mp hpx
  rw [← hpx₂] at hpos' hlt'
  have hnonneg := (Payload.sizes_of_isValid (.inl hmev₂) hvalid₂).1
  rw [hsz₂] at hnonneg
  rw [toInt32_displayQty m hnonneg] at hsz₂
  obtain ⟨hreal₂, s₃, _, hrests₂, happly₂⟩ :=
    processQ_parts (s := s₂.bumpId) hsims₂ hpos' hadd
  obtain ⟨hbec₂, x, hid, hsz, happends⟩ :=
    add_applied hmev₂ hreal₂ hlt' (hrests₂.live hlive₂) happly₂
  rw [href₂, hnext] at hid
  rw [hsz₂] at hsz
  rw [hside₂, hpx₂] at happends
  have hresting : s₄.book.resting =
      joinedBy cfg.toCfg e.side (ops.toPx m.pxd) (s.nextId m, (m.displayQty : ℤ)) fun l =>
        (s.book.resting l).filter fun x => x.1 ≠ e.chopid := by
    have hbumped : s₂.bumpId.book.resting = s₂.book.resting := rfl
    rw [hbec₂.resting, hrests₂.kept.resting, hbumped, hrest₂, hside₂, hpx₂, href₂, hsz₂, hnext]
  have hfollows : s.book.FollowedBy s₃.book :=
    hrests₁.follows.trans (hfollows₁.trans hrests₂.follows)
  refine ⟨rfl, ?_, ?_, ?_, hresting, ?_⟩
  · have hmap : s₄.ordermap = s.ordermap :=
      hbec₂.ordermap.trans (hrests₂.kept.ordermap.trans
        (hbec₁.ordermap.trans hrests₁.kept.ordermap))
    dsimp only
    rw [hmap, hnext]
  · exact ⟨_, x, happends.last, hid, hsz, hfollows _ _⟩
  · intro side p hnot
    exact (hfollows side p).trans (happends.others side p hnot)
  · intro p
    dsimp only
    rw [ordersInBook_resting, hresting, joinedBy, leftBy_own, List.map_append, List.sum_append,
      hagree.size_without he]
    congr 1
    by_cases hp : p = ops.toPx m.pxd
    · rw [if_pos hp, if_pos (by rw [hp])]
      rfl
    · rw [if_neg hp, if_neg fun heq => hp (congrArg Prod.snd heq)]
      rfl

theorem canc_reduced {m : Mbo Px} {e : OrderInfo Px} {o : List Sent} {pl : Pl}
    (hs : Reached cfg ops s) (hagree : MapAgrees ops s)
    (he : s.ordermap.lookup m.orderID = some e)
    (hpl : s.mboPayload ops m e.side e.chopid .mod .canc 0 (toInt32 m.displayQty) e.px
      m.endOfEvent m.recovery = some pl)
    (h : State.processSlatedExec cfg ops
      { s with ordermap := s.ordermap.insert m.orderID { e with sz := m.displayQty } } m pl =
        some (s', o)) : Reduced ops s m e s' := by
  obtain ⟨hvalid, hside, hpx, href, hmev, haction, -, hdisp⟩ := mboPayload_eq_some hpl
  obtain ⟨hpos, hlt⟩ := onLadder_iff.mp (hs.held.ladder _ _ he)
  rw [← hpx] at hpos hlt
  have hnonneg := (Payload.sizes_of_isValid (.inr hmev) hvalid).2.2
  rw [hdisp] at hnonneg
  rw [toInt32_displayQty m hnonneg] at hdisp
  obtain ⟨hreal, slate, s₁, _, hrests, happly⟩ :=
    processSlatedExec_parts
      (s := { s with ordermap := s.ordermap.insert m.orderID { e with sz := m.displayQty } })
      hs.sims hs.held.execs hpos h
  obtain ⟨hbec, hfollows⟩ := mod_applied hmev (.inr ⟨hlt, .inl haction⟩) hreal happly
  have hresting : ∀ l, s'.book.resting l = (s.book.resting l).map fun x =>
      if x.1 = e.chopid then (x.1, (m.displayQty : ℤ)) else x := by
    intro l
    rw [hbec.resting, hrests.kept.resting, ← hdisp]
    exact hagree.canc_effect he hmev haction hside hpx href l
  refine ⟨hbec.ordermap.trans hrests.kept.ordermap, hrests.follows.trans hfollows, hresting, ?_⟩
  intro p
  rw [ordersInBook_resting, hresting, sum_setDat, ← ordersInBook_resting]
  by_cases hp : p = ops.toPx e.px
  · rw [if_pos hp, hp, hagree.own he]
    simp only [List.map_cons, List.map_nil, List.sum_cons, List.sum_nil]
    omega
  · rw [if_neg hp, hagree.elsewhere he fun heq => hp (congrArg Prod.snd heq)]
    simp only [List.map_nil, List.sum_nil]
    omega

theorem onCanc_changed {m : Mbo Px} {e : OrderInfo Px} {o : List Sent} (hs : Reached cfg ops s)
    (hagree : MapAgrees ops s) (he : s.ordermap.lookup m.orderID = some e)
    (hpx : onLadder cfg ops m.pxd = true) (h : s.onCanc cfg ops m = some (s', o)) :
    (Moves ops m e → Replaced cfg ops s m e s') ∧ (¬ Moves ops m e → Reduced ops s m e s') := by
  rcases onCanc_cases h with ⟨hnone, -⟩ | ⟨e', he', hcases⟩
  · rw [hnone] at he
    cases he
  · obtain rfl : e' = e := Option.some.inj (he'.symm.trans he)
    rcases hcases with ⟨hmoves, hsome, hreplace⟩ | ⟨hstays, pl, s₁, rfl, hpl, hq⟩
    · exact ⟨fun _ => (cancReplace_replaced hs hagree he hpx hsome hreplace).2, fun hnot =>
        absurd hmoves hnot⟩
    · exact ⟨fun hmoves => absurd hmoves hstays, fun _ => canc_reduced hs hagree he hpl hq⟩

/-! ### Records -/

/-- The members that a Change reads are as they were. -/
structure Meets (s s' : State Px) : Prop where
  book : s'.book = s.book
  ordermap : s'.ordermap = s.ordermap
  execSlate : s'.execSlate = s.execSlate
  bookoid : s'.bookoid = s.bookoid
  delQ : s'.delQ = s.delQ

theorem Meets.trans {s₁ : State Px} (h : Meets s s₁) (h' : Meets s₁ s') : Meets s s' where
  book := h'.book.trans h.book
  ordermap := h'.ordermap.trans h.ordermap
  execSlate := h'.execSlate.trans h.execSlate
  bookoid := h'.bookoid.trans h.bookoid
  delQ := h'.delQ.trans h.delQ

theorem Meets.reached (h : Meets s s') (hs : Reached cfg ops s) : Reached cfg ops s' where
  held := hs.held.of_same ⟨h.ordermap, h.execSlate⟩
  sims p hp := hs.sims p (h.delQ ▸ hp)
  live := h.book ▸ hs.live

theorem Meets.mapAgrees (h : Meets s s') (hs : MapAgrees ops s) : MapAgrees ops s' := by
  obtain ⟨hlisted, helse, hresting, hreached⟩ := hs
  rw [← h.book, ← h.ordermap] at hlisted helse hresting hreached
  exact ⟨hlisted, helse, hresting, hreached⟩

theorem Meets.nextId (h : Meets s s') (m : Mbo Px) : s'.nextId m = s.nextId m := by
  unfold State.nextId
  rw [h.bookoid]

theorem Replaced.of_meets {s₁ : State Px} {m : Mbo Px} {e : OrderInfo Px}
    (h : Replaced cfg ops s₁ m e s') (hmeets : Meets s s₁) : Replaced cfg ops s m e s' := by
  obtain ⟨hlisted, hlast, hfollows, hresting, hsize⟩ := h
  rw [hmeets.book] at hlast hfollows hresting hsize
  rw [hmeets.nextId] at hlisted hlast hresting
  rw [hmeets.ordermap] at hlisted
  exact ⟨hlisted, hlast, hfollows, hresting, hsize⟩

theorem Reduced.of_meets {s₁ : State Px} {m : Mbo Px} {e : OrderInfo Px}
    (h : Reduced ops s₁ m e s') (hmeets : Meets s s₁) : Reduced ops s m e s' := by
  obtain ⟨hlisted, hfollows, hresting, hsize⟩ := h
  rw [hmeets.book] at hfollows hresting hsize
  rw [hmeets.ordermap] at hlisted
  exact ⟨hlisted, hfollows, hresting, hsize⟩

theorem firstRecord_meets (cfg : FeedCfg) (s : State Px) (txTime : ℕ) (isSst : Bool) :
    Meets s (s.firstRecord cfg txTime isSst) := by
  unfold State.firstRecord
  split <;> exact ⟨rfl, rfl, rfl, rfl, rfl⟩

theorem gate_meets (s : State Px) (m : Mbo Px) : Meets s ((s.stamped m).gate m).1 := by
  unfold State.gate State.stamped
  dsimp only
  split_ifs <;> exact ⟨rfl, rfl, rfl, rfl, rfl⟩

/-- A live record clears nothing. -/
theorem trackRecovery_meets {m : Mbo Px} {o : List Sent} (hlive : m.recovery = false)
    (h : s.trackRecovery cfg m = some (s', o)) : Meets s s' := by
  rcases trackRecovery_cases h with ⟨hrec, -⟩ | ⟨-, rfl, -⟩
  · rw [hlive] at hrec
    cases hrec
  · exact ⟨rfl, rfl, rfl, rfl, rfl⟩

/-- **A live Change** of an order that is held moves it to the tail of its new queue or reduces
    it in its place, whatever the book has reached and whatever the record releases. -/
theorem change_applied {es : List (Event Px)} {out o : List Sent} {m : Mbo Px} {e : OrderInfo Px}
    (hrun : run (handle cfg ops) (State.new Px cfg) es = some (s, out))
    (hagree : MapAgrees ops s) (hreaches : Reaches cfg ops m) (hpass : (s.gate m).2 = true)
    (hchange : m.orderUpdateAction = 1) (hlive : m.recovery = false)
    (hpx : onLadder cfg ops m.pxd = true) (he : s.ordermap.lookup m.orderID = some e)
    (h : handle cfg ops s (.mbo m) = some (s', o)) :
    (Moves ops m e → Replaced cfg ops s m e s') ∧ (¬ Moves ops m e → Reduced ops s m e s') := by
  have hmbo : (s.firstRecord cfg m.transactTime false).onMbo cfg ops m = some (s', o) := h
  rcases onMbo_cases hmbo with ⟨hnot, -⟩ | ⟨-, hrej, -⟩ | ⟨-, -, s₁, o₁, o₂, htrack, happly, -⟩
  · exact absurd hreaches hnot
  · rw [gate_stamped_snd, hpass] at hrej
    cases hrej
  · have hmeets : Meets s s₁ := (firstRecord_meets cfg s m.transactTime false).trans
      ((gate_meets _ m).trans (trackRecovery_meets hlive htrack))
    have hcanc : s₁.onCanc cfg ops m = some (s', o₂) := by
      rw [hpx] at happly
      rcases (applyMbo_cases happly).2 with ⟨hdelete | hbad, -⟩ | ⟨-, hnew, -⟩ | ⟨-, -, hcanc⟩
      · omega
      · cases hbad
      · omega
      · exact hcanc
    rw [← hmeets.ordermap] at he
    obtain ⟨hmoves, hstays⟩ := onCanc_changed (hmeets.reached (reached_of_run hrun))
      (hmeets.mapAgrees hagree) he hpx hcanc
    exact ⟨fun hm => (hmoves hm).of_meets hmeets, fun hm => (hstays hm).of_meets hmeets⟩

/-! ### Changes in simulation and in live -/

theorem fin_hundred_lt (sz : Fin 100) : (sz : ℕ) < 2 ^ 32 := by omega

/-- A Change of a bid. -/
def bidChange (oid : ℕ) (px : ℤ) (sz : Fin 100) : Mbo ℤ where
  venue := 1
  transactTime := 7
  sendingTime := 7
  orderUpdateAction := 1
  securityID := 1
  orderID := oid
  pxd := px
  displayQty := sz
  displayQty_lt := fin_hundred_lt sz
  side := '0'
  endOfEvent := true
  recovery := false

/-- Two bids at 10. -/
def bidsAtTen : List (Event ℤ) := bidRecords.take 2

/-- The first moves to 11, or shrinks at 10. -/
theorem change_applied_bids :
    ∃ s out e s₁ o₁ s₂ o₂,
      run (handle simulCfg tickOps) (State.new ℤ simulCfg) bidsAtTen = some (s, out) ∧
        s.ordermap.lookup 1 = some e ∧
        handle simulCfg tickOps s (.mbo (bidChange 1 11 4)) = some (s₁, o₁) ∧
        Replaced simulCfg tickOps s (bidChange 1 11 4) e s₁ ∧
        handle simulCfg tickOps s (.mbo (bidChange 1 10 4)) = some (s₂, o₂) ∧
        Reduced tickOps s (bidChange 1 10 4) e s₂ := by
  have hvals : (run (handle simulCfg tickOps) (State.new ℤ simulCfg) bidsAtTen).bind (fun r =>
      (r.1.ordermap.lookup 1).bind fun e =>
        (handle simulCfg tickOps r.1 (.mbo (bidChange 1 11 4))).bind fun r₁ =>
          (handle simulCfg tickOps r.1 (.mbo (bidChange 1 10 4))).map fun r₂ =>
            ((r.1.gate (bidChange 1 11 4)).2, (r.1.gate (bidChange 1 10 4)).2, e.sz, e.px)) =
      some (true, true, 9, 10) := by
    decide +kernel
  have hsafe : AllSteps (handle simulCfg tickOps) (MapSafe tickOps) (State.new ℤ simulCfg)
      bidsAtTen := by decide +kernel
  obtain ⟨⟨s, out⟩, hrun, hvals⟩ := Option.bind_eq_some_iff.mp hvals
  obtain ⟨e, he, hvals⟩ := Option.bind_eq_some_iff.mp hvals
  obtain ⟨⟨s₁, o₁⟩, h₁, hvals⟩ := Option.bind_eq_some_iff.mp hvals
  obtain ⟨⟨s₂, o₂⟩, h₂, hvals⟩ := Option.map_eq_some_iff.mp hvals
  simp only [Prod.mk.injEq] at hvals
  obtain ⟨hpass₁, hpass₂, hsz, hpx⟩ := hvals
  have hagree := (run_sound rfl hrun hsafe).mapAgrees
  have hmoves : Moves tickOps (bidChange 1 11 4) e := by
    refine .inr ⟨rfl, ?_⟩
    rw [hpx]
    rfl
  have hstays : ¬ Moves tickOps (bidChange 1 10 4) e := by
    unfold Moves
    rw [hsz, hpx]
    decide
  refine ⟨s, out, e, s₁, o₁, s₂, o₂, hrun, he, h₁, ?_, h₂, ?_⟩
  · exact (change_applied hrun hagree (by decide) hpass₁ rfl rfl rfl he h₁).1 hmoves
  · exact (change_applied hrun hagree (by decide) hpass₂ rfl rfl rfl he h₂).2 hstays

/-- A state that is reached is sound where its map and queues agree. -/
theorem Reached.sound (hs : Reached cfg ops s)
    (hagree : Agree (registry ops s.ordermap) s.book.resting) : Sound cfg ops s :=
  ⟨hagree, hs.held.ladder, hs.held.execs, hs.sims⟩

/-- The live asset. -/
def liveCfg : FeedCfg := { simulCfg with doCrossCheck := false }

/-- A bid at 10 and an ask at 12. -/
def bidAndAsk : List (Event ℤ) :=
  [bidOfFive 5 0 1 10 false,
    .mbo
      { venue := 1, transactTime := 6, sendingTime := 6, orderUpdateAction := 0, securityID := 1
        orderID := 2, pxd := 12, displayQty := 7, displayQty_lt := by omega, side := '1'
        endOfEvent := true, recovery := false }]

/-- What rests then. -/
def bidAndAskResting : Side × ℤ → List (LongId × ℤ) :=
  Function.update (Function.update (fun _ => []) (.buy, 10) ([] ++ [(⟨1, 0⟩, 5)]))
    (.sel, 12) ([] ++ [(⟨1, 1⟩, 7)])

theorem bidAndAsk_resting {s : State ℤ} (hs : Reached liveCfg tickOps s)
    (hlevels : ∀ side ∈ [Side.buy, Side.sel], ∀ i ∈ List.range 20,
      s.book.resting (side, ((i : ℕ) : ℤ)) = bidAndAskResting (side, ((i : ℕ) : ℤ))) :
    s.book.resting = bidAndAskResting := by
  funext l
  obtain ⟨side, p⟩ := l
  by_cases hp : 0 < p ∧ p < 20
  · obtain ⟨i, rfl⟩ : ∃ i : ℕ, p = i := ⟨p.toNat, by omega⟩
    exact hlevels side (by cases side <;> decide) i (List.mem_range.mpr (by omega))
  · have hten : ((side, p) : Side × ℤ) ≠ (.buy, 10) := fun heq => hp (by
      have := congrArg Prod.snd heq
      omega)
    have htwelve : ((side, p) : Side × ℤ) ≠ (.sel, 12) := fun heq => hp (by
      have := congrArg Prod.snd heq
      omega)
    rw [hs.resting_off_ladder hp, bidAndAskResting, Function.update_of_ne htwelve,
      Function.update_of_ne hten]

/-- In live, the bid that moves to 12 takes the ask away. -/
theorem live_change_takes_crossed :
    ¬ ∀ (es : List (Event ℤ)) (s : State ℤ) (out : List Sent) (m : Mbo ℤ) (e : OrderInfo ℤ)
        (s' : State ℤ) (o : List Sent),
        run (handle liveCfg tickOps) (State.new ℤ liveCfg) es = some (s, out) →
        MapAgrees tickOps s → Reaches liveCfg tickOps m → (s.gate m).2 = true →
        m.orderUpdateAction = 1 → m.recovery = false → onLadder liveCfg tickOps m.pxd = true →
        0 < m.displayQty → s.ordermap.lookup m.orderID = some e →
        handle liveCfg tickOps s (.mbo m) = some (s', o) →
        ∀ l x, x ∈ s.book.resting l → x.1 ≠ e.chopid → x ∈ s'.book.resting l := by
  intro hall
  have hmap : (run (handle liveCfg tickOps) (State.new ℤ liveCfg) bidAndAsk).map
      (fun r => r.1.ordermap) =
        some (AList.insert 2 ⟨⟨1, 1⟩, 2, 12, 7, .sel⟩
          (AList.insert 1 ⟨⟨1, 0⟩, 1, 10, 5, .buy⟩ ∅)) := by rfl
  have hvals : (run (handle liveCfg tickOps) (State.new ℤ liveCfg) bidAndAsk).bind (fun r =>
      (handle liveCfg tickOps r.1 (.mbo (bidChange 1 12 5))).map fun r' =>
        ((r.1.gate (bidChange 1 12 5)).2,
          decide (∀ side ∈ [Side.buy, Side.sel], ∀ i ∈ List.range 20,
            r.1.book.resting (side, ((i : ℕ) : ℤ)) = bidAndAskResting (side, ((i : ℕ) : ℤ))),
          r'.1.book.resting (.sel, 12))) = some (true, true, []) := by
    decide +kernel
  obtain ⟨⟨s, out⟩, hrun, hvals⟩ := Option.bind_eq_some_iff.mp hvals
  obtain ⟨⟨s', o⟩, h, hvals⟩ := Option.map_eq_some_iff.mp hvals
  simp only [Prod.mk.injEq] at hvals
  obtain ⟨hpass, hlevels, hgone⟩ := hvals
  rw [hrun, Option.map_some] at hmap
  have hmap := Option.some.inj hmap
  have hs := reached_of_run hrun
  have hresting := bidAndAsk_resting hs (of_decide_eq_true hlevels)
  have hagree : Agree (registry tickOps s.ordermap) s.book.resting := by
    rw [hmap, hresting, registry_insert, registry_insert, registry_empty]
    have hbid := Agree.empty.insert (k := 1)
      (e := OrderInfo.entry tickOps ⟨⟨1, 0⟩, 1, 10, 5, .buy⟩) rfl (fun _ _ hx => by cases hx)
    refine hbid.insert (e := OrderInfo.entry tickOps ⟨⟨1, 1⟩, 2, 12, 7, .sel⟩) rfl ?_
    intro i x hx
    by_cases hi : i = 1
    · rw [hi, Function.update_self] at hx
      cases hx
      decide
    · rw [Function.update_of_ne hi] at hx
      cases hx
  have hkept := hall _ s out (bidChange 1 12 5) ⟨⟨1, 0⟩, 1, 10, 5, .buy⟩ s' o hrun
    (hs.sound hagree).mapAgrees (by decide) hpass rfl rfl rfl (by decide) (by rw [hmap]; rfl) h
    (.sel, 12) (⟨1, 1⟩, 7) (by rw [hresting]; decide) (by decide)
  rw [hgone] at hkept
  exact List.not_mem_nil hkept

end KasparHft.OB
