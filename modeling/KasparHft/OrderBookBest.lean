import KasparHft.OrderBookSims

/-!
# The best prices of the order book

`best_bid` and `best_ask` are raised by `add` and walked off empty levels by `add` (live)
and by `mod`.  They are shown to be the best levels of the exchange's orders after every
run of calls, and to be the values of the run without our own calls.

Every path of a call either leaves the real orders of a side as they are, or adds one, or
takes some away and then walks from the old best.
-/

namespace KasparHft.OB

open Ladder Machine

/-! ### The best prices -/

/-- The values of `best_bid` when no real bid rests. -/
def noBid (p : ℤ) : Prop := p = 0 ∨ p = 1

/-- The values of `best_ask` when no real ask rests: the last price, as the constructor,
    `clear` and the walk of `mod` leave it, or the last index of the queues, where the walk
    of `add` ends. -/
def noAsk (cfg : Cfg) (p : ℤ) : Prop := p = cfg.maxprice - 1 ∨ p = cfg.maxprice + 1

/-- `best_bid` and `best_ask` are right, and real orders rest on the ladder. -/
structure BestPrices (cfg : Cfg) (b : Book) : Prop where
  bid : Best 1 (HasReal b.bidqs) noBid b.bestBid
  ask : Best (-1) (HasReal b.askqs) (noAsk cfg) b.bestAsk
  bids_pos : ∀ p, HasReal b.bidqs p → 0 < p
  asks_lt : ∀ p, HasReal b.askqs p → p < cfg.maxprice

/-- The prices of a call are inside the ladder. -/
def InLadder (cfg : Cfg) : Call → Prop
  | .add _ a => 0 < a.px ∧ a.px < cfg.maxprice
  | .mod a => 0 < a.px ∧ a.px < cfg.maxprice
  | .clear => True

theorem bestPrices_new (cfg : Cfg) : BestPrices cfg (Book.new cfg) where
  bid := .inr ⟨fun _ ⟨_, ho, _⟩ => (List.not_mem_nil ho).elim, .inl rfl⟩
  ask := .inr ⟨fun _ ⟨_, ho, _⟩ => (List.not_mem_nil ho).elim, .inl rfl⟩
  bids_pos := fun _ ⟨_, ho, _⟩ => (List.not_mem_nil ho).elim
  asks_lt := fun _ ⟨_, ho, _⟩ => (List.not_mem_nil ho).elim

/-- The best prices depend on the real orders alone. -/
theorem BestPrices.congr {cfg : Cfg} {b b' : Book} (h : BestPrices cfg b)
    (heq : b'.noSims = b.noSims) : BestPrices cfg b' := by
  have hqs : ∀ side p, HasReal (b'.qs side) p ↔ HasReal (b.qs side) p := by
    intro side
    apply hasReal_of_reals_eq
    intro p
    have hside := congrArg (fun b : Book => b.qs side p) heq
    simpa using hside
  have hbid : b'.noSims.bestBid = b.noSims.bestBid := congrArg Book.bestBid heq
  have hask : b'.noSims.bestAsk = b.noSims.bestAsk := congrArg Book.bestAsk heq
  change b'.bestBid = b.bestBid at hbid
  change b'.bestAsk = b.bestAsk at hask
  exact ⟨hbid ▸ h.bid.congr (hqs .buy), hask ▸ h.ask.congr (hqs .sel),
    fun p hp => h.bids_pos p ((hqs .buy p).mp hp), fun p hp => h.asks_lt p ((hqs .sel p).mp hp)⟩

theorem BestPrices.bestBid_nonneg {cfg : Cfg} {b : Book} (h : BestPrices cfg b) :
    0 ≤ b.bestBid := by
  rcases h.bid with ⟨hreal, -⟩ | ⟨-, hp⟩
  · exact (h.bids_pos _ hreal).le
  · rcases hp with hp | hp <;> omega

theorem BestPrices.bestAsk_le {cfg : Cfg} {b : Book} (h : BestPrices cfg b) :
    b.bestAsk ≤ cfg.maxprice - 1 ∨ b.bestAsk = cfg.maxprice + 1 := by
  rcases h.ask with ⟨hreal, -⟩ | ⟨-, hp⟩
  · have := h.asks_lt _ hreal
    omega
  · rcases hp with hp | hp <;> omega

/-- Bids are taken away and the best bid walks down, to 1 at most. -/
theorem BestPrices.bid_walk {cfg : Cfg} {b : Book} {qs : ℤ → List Order} (h : BestPrices cfg b)
    (hsub : ∀ p, HasReal qs p → HasReal b.bidqs p) :
    Best 1 (HasReal qs) noBid
      (walk (fun p => emptyOrAllSim (qs p)) (-1) (b.bestBid - 1).toNat b.bestBid) := by
  have hbb := h.bestBid_nonneg
  apply Best.walk (.inl rfl)
  · intro p hp
    exact h.bid.le (hsub p hp)
  · exact fun p => emptyOrAllSim_iff
  · intro p hp
    have := h.bids_pos p (hsub p hp)
    omega
  · unfold noBid
    omega

/-- Asks are taken away and the best ask walks up, to `top` at most. -/
theorem BestPrices.ask_walk {cfg : Cfg} {b : Book} {qs : ℤ → List Order} {top : ℤ}
    (h : BestPrices cfg b) (hsub : ∀ p, HasReal qs p → HasReal b.askqs p)
    (htop : noAsk cfg top) :
    Best (-1) (HasReal qs) (noAsk cfg)
      (walk (fun p => emptyOrAllSim (qs p)) 1 (top - b.bestAsk).toNat b.bestAsk) := by
  have hba := h.bestAsk_le
  unfold noAsk at htop
  apply Best.walk (.inr rfl)
  · intro p hp
    exact h.ask.le (hsub p hp)
  · exact fun p => emptyOrAllSim_iff
  · intro p hp
    have := h.asks_lt p (hsub p hp)
    omega
  · unfold noAsk
    omega

/-! ### The best prices after a call -/

theorem notify_keeps {b b' : Book} {c : Prop} {dc : Decidable c} {txtim : ℕ} {side : Side}
    {venue : ℕ} {n : List Note}
    (h : (if c then b.notifybbbosubs txtim side venue else some (b, [])) = some (b', n)) :
    b'.bidqs = b.bidqs ∧ b'.askqs = b.askqs ∧ b'.bestBid = b.bestBid ∧ b'.bestAsk = b.bestAsk := by
  split at h
  · exact notifybbbosubs_keeps h
  · cases h
    exact ⟨rfl, rfl, rfl, rfl⟩

theorem checkForBoChange_buy {cfg : Cfg} {b b' : Book} {px : ℤ} {txtim venue c : ℕ}
    {n : List Note} (h : b.checkForBoChange cfg .buy px txtim venue c = some (b', n)) :
    b'.bidqs = b.bidqs ∧ b'.askqs = b.askqs ∧
      b'.bestBid = (if b.bestBid < px then px else b.bestBid) ∧
      (b'.bestAsk = walk (fun p => emptyOrAllSim (b.askqs p)) 1
          (cfg.maxprice + 1 - b.bestAsk).toNat b.bestAsk ∨
        (cfg.doCrossCheck = true ∨ c = 0) ∧ b'.bestAsk = b.bestAsk) := by
  simp only [Book.checkForBoChange] at h
  generalize (if b.bestBid < px then px else b.bestBid) = bb at h ⊢
  split at h
  · split at h
    · cases h
    · obtain ⟨hbids, hasks, hbid, hask⟩ := notify_keeps h
      exact ⟨hbids, hasks, hbid, .inl hask⟩
  next hnot =>
    obtain ⟨hbids, hasks, hbid, hask⟩ := notify_keeps h
    refine ⟨hbids, hasks, hbid, .inr ⟨?_, hask⟩⟩
    rcases hmode : cfg.doCrossCheck with _ | _
    · right
      by_contra hc
      exact hnot ⟨hmode, .inl hc⟩
    · exact .inl rfl

theorem checkForBoChange_sel {cfg : Cfg} {b b' : Book} {px : ℤ} {txtim venue c : ℕ}
    {n : List Note} (h : b.checkForBoChange cfg .sel px txtim venue c = some (b', n)) :
    b'.bidqs = b.bidqs ∧ b'.askqs = b.askqs ∧
      b'.bestAsk = (if px < b.bestAsk then px else b.bestAsk) ∧
      (b'.bestBid = walk (fun p => emptyOrAllSim (b.bidqs p)) (-1) (b.bestBid - 1).toNat b.bestBid ∨
        (cfg.doCrossCheck = true ∨ c = 0) ∧ b'.bestBid = b.bestBid) := by
  simp only [Book.checkForBoChange] at h
  generalize (if px < b.bestAsk then px else b.bestAsk) = ba at h ⊢
  split at h
  · split at h
    · cases h
    · obtain ⟨hbids, hasks, hbid, hask⟩ := notify_keeps h
      exact ⟨hbids, hasks, hask, .inl hbid⟩
  next hnot =>
    obtain ⟨hbids, hasks, hbid, hask⟩ := notify_keeps h
    refine ⟨hbids, hasks, hask, .inr ⟨?_, hbid⟩⟩
    rcases hmode : cfg.doCrossCheck with _ | _
    · right
      by_contra hc
      exact hnot ⟨hmode, .inl hc⟩
    · exact .inl rfl

theorem hasReal_update_append {qs : ℤ → List Order} {px : ℤ} {o : Order}
    (ho : o.isSim = false) (p : ℤ) :
    HasReal (Function.update qs px (qs px ++ [o])) p ↔ p = px ∨ HasReal qs p := by
  unfold HasReal
  by_cases hp : p = px
  · subst hp
    rw [Function.update_self]
    exact ⟨fun _ => .inl rfl,
      fun _ => ⟨o, List.mem_append_right _ (List.mem_singleton_self o), ho⟩⟩
  · rw [Function.update_of_ne hp]
    exact ⟨.inr, fun h => h.resolve_left hp⟩

/-- What `add` of a real order goes through: sweep, best offer, append. -/
theorem add_real {cfg : Cfg} {currtim : ℕ} {b b' : Book} {a : AddArgs} {n : List Note}
    (hid : isSim a.id = false) (hpx : a.px < cfg.maxprice)
    (h : b.add cfg currtim a = some (b', n)) :
    ∃ b₁ n₁ c b₂ n₂, b.fillStraySimOrders cfg a.side a.px a.txtim = some (b₁, n₁, c) ∧
      b₁.checkForBoChange cfg a.side a.px a.txtim a.venue c = some (b₂, n₂) ∧
      b' = b₂.setQ a.side a.px (b₂.qs a.side a.px ++ [a.order]) := by
  cases add_cases h with
  | offLadder hoff => exact absurd hpx (not_lt.mpr hoff)
  | arrives hsim _ _ _ =>
      rw [hid] at hsim
      cases hsim
  | rests hsim _ _ _ =>
      rw [hid] at hsim
      cases hsim
  | real _ _ hsweep hbo happ => exact ⟨_, _, _, _, _, hsweep, hbo, append_eq happ⟩

theorem add_best {cfg : Cfg} {currtim : ℕ} {b b' : Book} {a : AddArgs} {n : List Note}
    (hb : BestPrices cfg b) (hid : isSim a.id = false)
    (hpx : 0 < a.px ∧ a.px < cfg.maxprice) (h : b.add cfg currtim a = some (b', n)) :
    BestPrices cfg b' := by
  obtain ⟨b₁, n₁, c, b₂, n₂, hsweep, hbo, rfl⟩ := add_real hid hpx.2 h
  obtain ⟨qs, rfl, hsub, hsame, hcount, -⟩ := fillStraySimOrders_sweep hsweep
  have hreal : a.order.isSim = false := hid
  rcases hside : a.side with _ | _
  · rw [hside] at hbo hsub hsame
    obtain ⟨hbids, hasks, hbid, hask⟩ := checkForBoChange_buy hbo
    have hbids : b₂.bidqs = b.bidqs := hbids
    have hasks : b₂.askqs = qs := hasks
    have hbid : b₂.bestBid = if b.bestBid < a.px then a.px else b.bestBid := hbid
    have hlevels : ∀ p, HasReal (b₂.setQ .buy a.px (b₂.bidqs a.px ++ [a.order])).bidqs p ↔
        p = a.px ∨ HasReal b.bidqs p := hbids ▸ hasReal_update_append hreal
    refine ⟨?_, ?_, ?_, ?_⟩
    · -- the order may be the new best bid
      have hins := hb.bid.insert (.inl rfl) (fun q hq => by unfold noBid at hq; omega) hlevels
      simp only [Int.one_mul, ← hbid] at hins
      exact hins
    · change Best (-1) (HasReal b₂.askqs) (noAsk cfg) b₂.bestAsk
      rw [hasks]
      rcases hask with hwalk | ⟨hnone, hsameask⟩
      · rw [hwalk]
        exact hb.ask_walk hsub (.inr rfl)
      · rw [hsameask]
        refine hb.ask.congr (hasReal_of_reals_eq (hsame ?_))
        exact hnone.elim hcount id
    · intro p hp
      rcases (hlevels p).mp hp with rfl | hp
      · exact hpx.1
      · exact hb.bids_pos p hp
    · change ∀ p, HasReal b₂.askqs p → p < cfg.maxprice
      rw [hasks]
      exact fun p hp => hb.asks_lt p (hsub p hp)
  · rw [hside] at hbo hsub hsame
    obtain ⟨hbids, hasks, hask, hbid⟩ := checkForBoChange_sel hbo
    have hbids : b₂.bidqs = qs := hbids
    have hasks : b₂.askqs = b.askqs := hasks
    have hask : b₂.bestAsk = if a.px < b.bestAsk then a.px else b.bestAsk := hask
    have hlevels : ∀ p, HasReal (b₂.setQ .sel a.px (b₂.askqs a.px ++ [a.order])).askqs p ↔
        p = a.px ∨ HasReal b.askqs p := hasks ▸ hasReal_update_append hreal
    refine ⟨?_, ?_, ?_, ?_⟩
    · change Best 1 (HasReal b₂.bidqs) noBid b₂.bestBid
      rw [hbids]
      rcases hbid with hwalk | ⟨hnone, hsamebid⟩
      · rw [hwalk]
        exact hb.bid_walk hsub
      · rw [hsamebid]
        refine hb.bid.congr (hasReal_of_reals_eq (hsame ?_))
        exact hnone.elim hcount id
    · -- the order may be the new best ask
      have hins := hb.ask.insert (.inr rfl) (fun q hq => by unfold noAsk at hq; omega) hlevels
      have hlt : -1 * b.bestAsk < -1 * a.px ↔ a.px < b.bestAsk := by omega
      simp only [hlt, ← hask] at hins
      exact hins
    · change ∀ p, HasReal b₂.bidqs p → 0 < p
      rw [hbids]
      exact fun p hp => hb.bids_pos p (hsub p hp)
    · intro p hp
      rcases (hlevels p).mp hp with rfl | hp
      · exact hpx.2
      · exact hb.asks_lt p hp

/-- What `adjust` leaves: the queues, and on its side the old best or the end of the walk. -/
theorem adjust_buy {cfg : Cfg} {b b' : Book} {px : ℤ} {txtim mkt : ℕ} {n : List Note}
    (h : b.adjust cfg .buy px txtim mkt = some (b', n)) (hpx : px ≤ b.bestBid) :
    b'.bidqs = b.bidqs ∧ b'.askqs = b.askqs ∧
      b'.bestBid = walk (fun p => emptyOrAllSim (b.bidqs p)) (-1) (b.bestBid - 1).toNat b.bestBid ∧
      b'.bestAsk = b.bestAsk := by
  simp only [Book.adjust, if_pos hpx] at h
  exact notify_keeps h

theorem adjust_sel {cfg : Cfg} {b b' : Book} {px : ℤ} {txtim mkt : ℕ} {n : List Note}
    (h : b.adjust cfg .sel px txtim mkt = some (b', n)) (hpx : b.bestAsk ≤ px) :
    b'.bidqs = b.bidqs ∧ b'.askqs = b.askqs ∧ b'.bestBid = b.bestBid ∧
      b'.bestAsk = walk (fun p => emptyOrAllSim (b.askqs p)) 1
        (cfg.maxprice - 1 - b.bestAsk).toNat b.bestAsk := by
  simp only [Book.adjust, if_pos hpx] at h
  exact notify_keeps h

theorem mod_best {cfg : Cfg} {b b' : Book} {a : ModArgs} {n : List Note}
    (hb : BestPrices cfg b) (hid : isSim a.id = false) (h : b.mod cfg a = some (b', n)) :
    BestPrices cfg b' := by
  cases mod_cases h with
  | offLadder _ => exact hb
  | missed _ _ _ => exact hb
  | sim hsim _ _ _ =>
      rw [hid] at hsim
      cases hsim
  | @real o q _ _ _ _ _ hfound _ hadj =>
      -- the order found is real, so its level has one before the call
      have hat : HasReal (b.qs a.side) a.px :=
        ⟨o, List.mem_of_find?_eq_some hfound, (isSim_of_found hfound).trans hid⟩
      have hsub : ∀ p, HasReal (Function.update (b.qs a.side) a.px q) p →
          HasReal (b.qs a.side) p := by
        rintro p ⟨x, hx, hreal⟩
        by_cases hp : p = a.px
        · exact hp ▸ hat
        · rw [Function.update_of_ne hp] at hx
          exact ⟨x, hx, hreal⟩
      rcases hside : a.side with _ | _
      · rw [hside] at hat hsub hadj
        have hle := hb.bid.le hat
        obtain ⟨hbids, hasks, hbid, hask⟩ := adjust_buy hadj (show a.px ≤ b.bestBid by omega)
        have hbids : b'.bidqs = Function.update b.bidqs a.px q := hbids
        have hasks : b'.askqs = b.askqs := hasks
        refine ⟨?_, ?_, ?_, ?_⟩
        · rw [hbids, hbid]
          exact hb.bid_walk hsub
        · rw [hasks, hask]
          exact hb.ask
        · rw [hbids]
          exact fun p hp => hb.bids_pos p (hsub p hp)
        · rw [hasks]
          exact hb.asks_lt
      · rw [hside] at hat hsub hadj
        have hle := hb.ask.le hat
        obtain ⟨hbids, hasks, hbid, hask⟩ := adjust_sel hadj (show b.bestAsk ≤ a.px by omega)
        have hbids : b'.bidqs = b.bidqs := hbids
        have hasks : b'.askqs = Function.update b.askqs a.px q := hasks
        refine ⟨?_, ?_, ?_, ?_⟩
        · rw [hbids, hbid]
          exact hb.bid
        · rw [hasks, hask]
          exact hb.ask_walk hsub (.inl rfl)
        · rw [hbids]
          exact hb.bids_pos
        · rw [hasks]
          exact fun p hp => hb.asks_lt p (hsub p hp)

theorem clear_best {cfg : Cfg} {b b' : Book} {n : List Note} (h : b.clear cfg = some (b', n)) :
    BestPrices cfg b' := by
  obtain ⟨bids, -, h⟩ := Option.bind_eq_some_iff.mp h
  obtain ⟨asks, -, heq⟩ := Option.map_eq_some_iff.mp h
  cases heq
  exact ⟨(bestPrices_new cfg).bid, (bestPrices_new cfg).ask, (bestPrices_new cfg).bids_pos,
    (bestPrices_new cfg).asks_lt⟩

/-- Every call keeps the best prices right. -/
theorem step_best {cfg : Cfg} {b b' : Book} {c : Call} {n : List Note} (hb : BestPrices cfg b)
    (hc : InLadder cfg c) (h : step cfg b c = some (b', n)) : BestPrices cfg b' := by
  rcases hreal : isRealCall c with _ | _
  · have heq := step_noSims h
    rw [hreal, if_neg Bool.false_ne_true] at heq
    exact hb.congr heq
  · cases c with
    | add currtim a => exact add_best hb (by simpa [isRealCall] using hreal) hc h
    | mod a => exact mod_best hb (by simpa [isRealCall] using hreal) h
    | clear => exact clear_best h

/-! ### Runs -/

/-- The best bid is the highest level with a real bid, or 0 or 1. -/
def HighestBid (b : Book) : Prop :=
  (HasReal b.bidqs b.bestBid ∧ ∀ p, HasReal b.bidqs p → p ≤ b.bestBid) ∨
    ((∀ p, ¬ HasReal b.bidqs p) ∧ (b.bestBid = 0 ∨ b.bestBid = 1))

/-- The best ask is the lowest level with a real ask, or the last price of the ladder or the
    last index of the queues. -/
def LowestAsk (cfg : Cfg) (b : Book) : Prop :=
  (HasReal b.askqs b.bestAsk ∧ ∀ p, HasReal b.askqs p → b.bestAsk ≤ p) ∨
    ((∀ p, ¬ HasReal b.askqs p) ∧
      (b.bestAsk = cfg.maxprice - 1 ∨ b.bestAsk = cfg.maxprice + 1))

theorem BestPrices.highestBid {cfg : Cfg} {b : Book} (h : BestPrices cfg b) : HighestBid b := by
  rcases h.bid with ⟨hp, hbest⟩ | hnone
  · refine .inl ⟨hp, fun p hp' => ?_⟩
    have := hbest p hp'
    omega
  · exact .inr hnone

theorem BestPrices.lowestAsk {cfg : Cfg} {b : Book} (h : BestPrices cfg b) : LowestAsk cfg b := by
  rcases h.ask with ⟨hp, hbest⟩ | hnone
  · refine .inl ⟨hp, fun p hp' => ?_⟩
    have := hbest p hp'
    omega
  · exact .inr hnone

theorem bestPrices_of_run {cfg : Cfg} {cs : List Call} {b : Book} {out : List Note}
    (hrun : run (step cfg) (Book.new cfg) cs = some (b, out))
    (hladder : ∀ c ∈ cs, InLadder cfg c) : BestPrices cfg b :=
  run_induction (I := fun _ _ b => BestPrices cfg b) (bestPrices_new cfg)
    (fun _ _ _ _ _ _ hb hc hs => step_best hb hc hs) (allSteps_of_forall hladder _) hrun

/-- **The best prices are right after every run**, and the run of the calls on real orders
    alone ends with the same ones. -/
theorem best_prices {cfg : Cfg} {cs : List Call} {b : Book} {out : List Note}
    (hrun : run (step cfg) (Book.new cfg) cs = some (b, out))
    (hladder : ∀ c ∈ cs, InLadder cfg c) :
    HighestBid b ∧ LowestAsk cfg b ∧
      ∃ b' out', run (step cfg) (Book.new cfg) (cs.filter isRealCall) = some (b', out') ∧
        b'.bestBid = b.bestBid ∧ b'.bestAsk = b.bestAsk := by
  have hbest := bestPrices_of_run hrun hladder
  obtain ⟨out', hrun'⟩ := run_noSims hrun
  exact ⟨hbest.highestBid, hbest.lowestAsk, b.noSims, out', hrun', rfl, rfl⟩

/-! ### A run of each mode -/

/-- A book of ten prices, in simulation (`true`) or live. -/
def smallCfg (doCrossCheck : Bool) : Cfg :=
  { maxprice := 10, one_lt_maxprice := by decide, doCrossCheck := doCrossCheck }

/-- The add of an order of the exchange. -/
def realAdd (id : ℕ) (side : Side) (px sz : ℤ) : Call :=
  .add 1
    { txtim := 5, id := ⟨1, id⟩, side := side, px := px, sz := sz, sender := none, ot := .uni
      owner := 0, exordid := id, venue := 1 }

/-- The add of one of our orders. -/
def simAdd (id : ℕ) (side : Side) (px sz : ℤ) : Call :=
  .add 1
    { txtim := 5, id := ⟨xSIM, id⟩, side := side, px := px, sz := sz, sender := some 7
      ot := .limit, owner := 0, exordid := 0, venue := 1 }

/-- The cancel of an order of the exchange. -/
def realCancd (id : ℕ) (side : Side) (px sz : ℤ) : Call :=
  .mod
    { sender := none, txtim := 5, id := ⟨1, id⟩, modtyp := .cancd, side := side, px := px, sz := sz
      dispSz := 0, mkt := 1, exordid := id }

/-- Two bids, one of ours above them, and the better one is cancelled. -/
def bidsCalls : List Call :=
  [realAdd 1 .buy 4 10, realAdd 2 .buy 5 10, simAdd 1 .buy 6 3, realCancd 2 .buy 5 10]

theorem best_prices_bids :
    ∃ b out, run (step (smallCfg true)) (Book.new (smallCfg true)) bidsCalls = some (b, out) ∧
      b.bestBid = 4 ∧ HighestBid b ∧ LowestAsk (smallCfg true) b := by
  have hrun : (run (step (smallCfg true)) (Book.new (smallCfg true)) bidsCalls).map
      (fun r => r.1.bestBid) = some 4 := by decide +kernel
  obtain ⟨⟨b, out⟩, hrun, hbid⟩ := Option.map_eq_some_iff.mp hrun
  have hladder : ∀ c ∈ bidsCalls, InLadder (smallCfg true) c := by
    simp [bidsCalls, realAdd, simAdd, realCancd, InLadder, smallCfg]
  obtain ⟨hhigh, hlow, -⟩ := best_prices hrun hladder
  exact ⟨b, out, hrun, hbid, hhigh, hlow⟩

/-- No one value stands for an ask side without real orders: an empty live book shows the
    last price, and one whose only ask a crossing bid has removed shows the last index. -/
theorem no_single_top_of_ladder :
    ¬ ∃ top : ℤ, ∀ cs b out,
      run (step (smallCfg false)) (Book.new (smallCfg false)) cs = some (b, out) →
      (∀ c ∈ cs, InLadder (smallCfg false) c) →
      (∀ p, ¬ HasReal b.askqs p) → b.bestAsk = top := by
  rintro ⟨top, htop⟩
  have hfresh : (smallCfg false).maxprice - 1 = top :=
    htop [] (Book.new (smallCfg false)) [] rfl (fun c hc => (List.not_mem_nil hc).elim)
      fun p ⟨o, ho, _⟩ => (List.not_mem_nil ho).elim
  have hrun : (run (step (smallCfg false)) (Book.new (smallCfg false))
      [realAdd 1 .sel 5 10, realAdd 2 .buy 6 10]).map (fun r => r.1.bestAsk) = some 11 := by
    decide +kernel
  obtain ⟨⟨b, out⟩, hrun, hask⟩ := Option.map_eq_some_iff.mp hrun
  have hladder : ∀ c ∈ [realAdd 1 .sel 5 10, realAdd 2 .buy 6 10],
      InLadder (smallCfg false) c := by
    simp [realAdd, InLadder, smallCfg]
  have hbest := bestPrices_of_run hrun hladder
  have hnone : ∀ p, ¬ HasReal b.askqs p := by
    rcases hbest.ask with ⟨hreal, -⟩ | ⟨hnone, -⟩
    · have hlt := hbest.asks_lt _ hreal
      rw [hask] at hlt
      exact absurd hlt (by decide)
    · exact hnone
  have hlive := htop _ _ _ hrun hladder hnone
  rw [hask, ← hfresh] at hlive
  exact absurd hlive (by decide)

end KasparHft.OB
