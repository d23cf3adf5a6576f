import KasparHft.OrderBookDelay
import KasparHft.OrderBookPosition

/-!
# The states a book reaches

Whatever the messages, in simulation and in live: the exchange's orders are on the ladder, in
the queues of their side, and the best prices are theirs; only our own orders wait in `del_q`;
the slate holds executions and the map prices of the ladder.
-/

namespace KasparHft.OB

open Ladder Machine

variable {Px : Type} {cfg : FeedCfg} {ops : PriceOps Px} {s s' : State Px}

/-! ### The call of a payload -/

/-- The same orders and best prices. -/
structure Book.Like (b b' : Book) : Prop where
  qs : ∀ side, b'.qs side = b.qs side
  bestBid : b'.bestBid = b.bestBid
  bestAsk : b'.bestAsk = b.bestAsk

theorem Book.Like.refl (b : Book) : b.Like b := ⟨fun _ => rfl, rfl, rfl⟩

theorem Book.Like.live {c : Cfg} {b b' : Book} (h : b.Like b') (hb : Live c b.noSims) :
    Live c b'.noSims := by
  have hqs : ∀ side, b'.noSims.qs side = b.noSims.qs side := by
    intro side
    rw [qs_noSims, qs_noSims, h.qs]
  have hbids : b'.noSims.bidqs = b.noSims.bidqs := hqs .buy
  have hasks : b'.noSims.askqs = b.noSims.askqs := hqs .sel
  have hbid : b'.noSims.bestBid = b.noSims.bestBid := h.bestBid
  have hask : b'.noSims.bestAsk = b.noSims.bestAsk := h.bestAsk
  refine ⟨⟨?_, ?_, ?_, ?_⟩, ?_, ?_, ?_⟩
  · rw [hbids, hbid]
    exact hb.best.bid
  · rw [hasks, hask]
    exact hb.best.ask
  · rw [hbids]
    exact hb.best.bids_pos
  · rw [hasks]
    exact hb.best.asks_lt
  · intro side p o ho
    rw [hqs] at ho
    exact hb.sided side p o ho
  · intro side p o ho
    rw [hqs] at ho
    exact hb.real side p o ho
  · intro side p o ho
    rw [hqs] at ho
    exact hb.on_ladder side p o ho

theorem drained_book (s : State Px) (pl : Pl) : (s.drained pl).1.book = s.book := by
  unfold State.drained
  split <;> rfl

theorem handleEoburst_book {pl : Pl} {o : List Sent} (h : s.handleEoburst cfg pl = (s', o)) :
    s'.book = s.book := by
  obtain rfl : (s.handleEoburst cfg pl).1 = s' := congrArg Prod.fst h
  unfold State.handleEoburst
  split <;> rfl

theorem checkCross_like {pl : Pl} (h : s.checkCross cfg pl = some s') : s.book.Like s'.book := by
  have hxcheck :
      (if pl.isSim = false ∧ s.xcheckTx < pl.tim then { s with xcheckTx := pl.tim } else s).book =
        s.book := by
    split <;> rfl
  unfold State.checkCross at h
  dsimp only at h
  split at h
  · split at h
    · cases h
    · cases h
      exact ⟨fun side => by cases side <;> rfl, rfl, rfl⟩
  · cases h
    rw [hxcheck]
    exact .refl _

theorem keepPoint_book {pl : Pl} {o : List Sent} (h : s.keepPoint cfg pl = some (s', o)) :
    s'.book = s.book := by
  unfold State.keepPoint at h
  split at h
  · cases h
    rfl
  · split at h
    · cases h
    · dsimp only at h
      split at h <;> cases h <;> rfl

/-- A payload is one call on the book, or leaves it alone. -/
theorem processAddOrMod_book {pl : Pl} {sender : Option ℕ} {o : List Sent}
    (h : s.processAddOrMod cfg pl sender = some (s', o)) :
    ((pl.mev = .add ∨ pl.mev = .mod) ∧ 0 < pl.px ∧
        ∃ n, step cfg.toCfg s.book (pl.call s.currtim sender) = some (s'.book, n)) ∨
      (¬ (pl.mev = .add ∨ pl.mev = .mod) ∧
        (s'.book = s.book ∨ ∃ n, step cfg.toCfg s.book .clear = some (s'.book, n))) := by
  cases processAddOrMod_cases h with
  | @call b n _ _ hmev hpx hstep hburst =>
      refine .inl ⟨hmev, hpx, n, ?_⟩
      rw [handleEoburst_book hburst]
      exact hstep
  | burst hmev hburst =>
      refine .inr ⟨?_, .inl (handleEoburst_book hburst)⟩
      rw [hmev]
      decide
  | clear hmev hclear =>
      obtain ⟨⟨b, n⟩, hcleared, heq⟩ := Option.map_eq_some_iff.mp hclear
      have hfst := congrArg Prod.fst heq
      refine .inr ⟨?_, .inr ⟨n, ?_⟩⟩
      · rw [hmev]
        decide
      · rw [← show _ = s' from hfst]
        exact hcleared
  | gap hmev =>
      refine .inr ⟨?_, .inl rfl⟩
      rw [hmev]
      decide
  | nothing hnot => exact .inr ⟨hnot, .inl rfl⟩

/-- **An add or a mod is one call**, on a book with the same orders. -/
theorem processMarketData_step {pl : Pl} {sender : Option ℕ} {o : List Sent}
    (hmev : pl.mev = .add ∨ pl.mev = .mod)
    (h : s.processMarketData cfg pl sender = some (s', o)) :
    0 < pl.px ∧ ∃ b currtim n, s.book.Like b ∧
      step cfg.toCfg b (pl.call currtim sender) = some (s'.book, n) := by
  obtain ⟨s₁, s₂, o₁, o₂, hcheck, hcall, hpoint, -⟩ := processMarketData_stages h
  have hlike := checkCross_like hcheck
  rw [drained_book] at hlike
  rcases processAddOrMod_book hcall with ⟨-, hpx, n, hstep⟩ | ⟨hnot, -⟩
  · refine ⟨hpx, s₁.book, s₁.currtim, n, hlike, ?_⟩
    rw [keepPoint_book hpoint]
    exact hstep
  · exact absurd hmev hnot

/-! ### The exchange's orders -/

/-- The price of a call is positive. -/
def Priced : Call → Prop
  | .add _ a => 0 < a.px
  | .mod a => 0 < a.px
  | .clear => True

theorem Priced.clear : Priced .clear := trivial

theorem priced_call {pl : Pl} (hpx : 0 < pl.px) (currtim : ℕ) (sender : Option ℕ) :
    Priced (pl.call currtim sender) := by
  unfold Pl.call
  split <;> exact hpx

/-- A call off the top of the ladder does nothing. -/
theorem step_off_ladder {c : Cfg} {b b' : Book} {call : Call} {n : List Note}
    (hpx : ¬ InLadder c call) (hpos : Priced call) (h : step c b call = some (b', n)) :
    b' = b := by
  cases call with
  | add currtim a =>
      have htop : ¬ a.px < c.maxprice := fun hlt => hpx ⟨hpos, hlt⟩
      cases add_cases h with
      | offLadder _ => rfl
      | arrives _ hlt _ _ => exact absurd hlt htop
      | rests _ hlt _ _ => exact absurd hlt htop
      | real _ hlt _ _ _ => exact absurd hlt htop
  | mod a =>
      have htop : ¬ a.px < c.maxprice := fun hlt => hpx ⟨hpos, hlt⟩
      cases mod_cases h with
      | offLadder _ => rfl
      | missed hlt _ _ => exact absurd hlt htop
      | sim _ hlt _ _ => exact absurd hlt htop
      | real _ hlt _ _ _ => exact absurd hlt htop
  | clear => exact absurd trivial hpx

theorem step_live_noSims {c : Cfg} {b b' : Book} {call : Call} {n : List Note}
    (hb : Live c b.noSims) (hpos : Priced call) (h : step c b call = some (b', n)) :
    Live c b'.noSims := by
  have hproj := step_noSims h
  split at hproj
  next hreal =>
    obtain ⟨n', hstep⟩ := hproj
    by_cases hpx : InLadder c call
    · exact step_live hb hpx hreal hstep
    · rw [step_off_ladder hpx hpos h]
      exact hb
  next =>
    rw [hproj]
    exact hb

theorem processMarketData_live {pl : Pl} {sender : Option ℕ} {o : List Sent}
    (hs : Live cfg.toCfg s.book.noSims) (h : s.processMarketData cfg pl sender = some (s', o)) :
    Live cfg.toCfg s'.book.noSims := by
  obtain ⟨s₁, s₂, o₁, o₂, hcheck, hcall, hpoint, -⟩ := processMarketData_stages h
  have hlike := checkCross_like hcheck
  rw [drained_book] at hlike
  rw [keepPoint_book hpoint]
  rcases processAddOrMod_book hcall with ⟨-, hpx, n, hstep⟩ | ⟨-, hsame | ⟨n, hstep⟩⟩
  · exact step_live_noSims (hlike.live hs) (priced_call hpx s₁.currtim sender) hstep
  · rw [hsame]
    exact hlike.live hs
  · exact step_live_noSims (hlike.live hs) Priced.clear hstep

theorem Pops.live {tim : ℕ} {sims : List (SimPl × Option ℕ)} {o : List Sent}
    (h : Pops cfg tim s sims o s') (hs : Live cfg.toCfg s.book.noSims) :
    Live cfg.toCfg s'.book.noSims := by
  induction h with
  | nil s => exact hs
  | cons hhead hdue happly _ ih =>
      have hone := processMarketData_live hs happly
      exact ih hone

theorem clear_live {o : List Sent} (hs : Live cfg.toCfg s.book.noSims)
    (h : s.clear cfg = some (s', o)) : Live cfg.toCfg s'.book.noSims := by
  obtain ⟨⟨b, n⟩, hclear, heq⟩ := Option.map_eq_some_iff.mp h
  have hfst := congrArg Prod.fst heq
  dsimp only at hfst
  have hstep : step cfg.toCfg s.book .clear = some (b, n) := hclear
  rw [← hfst]
  exact step_live_noSims hs Priced.clear hstep

/-- The acts of a book or trade record. -/
def Act.OnBook : Act → Prop
  | .round _ _ => True
  | .clear => True
  | .stamp => True
  | _ => False

theorem Act.IsRound.onBook {a : Act} (h : a.IsRound) : a.OnBook := by
  cases a <;> trivial

theorem IsClear.onBook {a : Act} (h : IsClear a) : a.OnBook := by
  cases a <;> trivial

theorem Path.live {acts : List Act} {o : List Sent} (h : Path cfg s acts o s')
    (hacts : ∀ a ∈ acts, a.OnBook) (hs : Live cfg.toCfg s.book.noSims) :
    Live cfg.toCfg s'.book.noSims := by
  induction h with
  | nil hquiet =>
      rw [hquiet.book]
      exact hs
  | cons hquiet hact _ ih =>
      obtain ⟨ha, hacts⟩ := List.forall_mem_cons.mp hacts
      rw [← hquiet.book] at hs
      apply ih hacts
      cases hact with
      | round hmev hreal hpops hhead happly => exact processMarketData_live (hpops.live hs) happly
      | clear hclear => exact clear_live hs hclear
      | stamp hbook hgood hdel hpub hhi hlo hbbbo =>
          rw [hbook]
          exact hs
      | direct => exact ha.elim
      | wait => exact ha.elim
      | subscribe => exact ha.elim

theorem onMbo_live {m : Mbo Px} {o : List Sent} (hs : Held cfg ops s)
    (hlive : Live cfg.toCfg s.book.noSims) (h : s.onMbo cfg ops m = some (s', o)) :
    Live cfg.toCfg s'.book.noSims := by
  have hgate := gate_book s m
  rcases onMbo_cases h with ⟨-, ⟨t, t', rfl⟩, -⟩ | ⟨-, -, rfl, -⟩ |
    ⟨hreaches, -, s₁, o₁, o₂, htrack, happly, -⟩
  · exact hlive
  · rw [hgate]
    exact hlive
  · obtain ⟨acts, htracked, hclears, hs₁, -⟩ :=
      trackRecovery_path (hs.of_same (gate_sameHeld s m)) htrack
    obtain ⟨acts', hrounds, -, -⟩ := applyMbo_rounds hs₁ rfl hreaches.not_new happly
    refine hrounds.1.live (fun a ha => (hrounds.2 a ha).onBook) ?_
    refine htracked.live (fun a ha => (hclears a ha).onBook) ?_
    rw [hgate]
    exact hlive

theorem handle_live {e : Event Px} {o : List Sent} (hs : Held cfg ops s)
    (hlive : Live cfg.toCfg s.book.noSims) (h : handle cfg ops s e = some (s', o)) :
    Live cfg.toCfg s'.book.noSims := by
  have hcontrol : ∀ {mev : Md}, s.onControl cfg mev = some (s', o) →
      Live cfg.toCfg s'.book.noSims := fun hmev => processMarketData_live hlive hmev
  cases e with
  | mbo m =>
      have hfirst := firstRecord_book cfg s m.transactTime false
      rw [← hfirst] at hlive
      exact onMbo_live (hs.of_same (firstRecord_sameHeld cfg s m.transactTime false)) hlive h
  | mboTrd t =>
      have hfirst := firstRecord_book cfg s t.transactTime false
      rw [← hfirst] at hlive
      obtain ⟨acts, hrounds, -⟩ :=
        onTrd_rounds (hs.of_same (firstRecord_sameHeld cfg s t.transactTime false)) h
      exact hrounds.1.live (fun a ha => (hrounds.2 a ha).onBook) hlive
  | chr => exact hcontrol h
  | gap => exact hcontrol h
  | eob => exact hcontrol h
  | sst txtim tradingStatus =>
      cases h
      have hfirst := firstRecord_book cfg s txtim true
      rw [← hfirst] at hlive
      exact hlive
  | other txTime =>
      cases h
      rw [firstRecord_book]
      exact hlive
  | sim p sender =>
      obtain ⟨-, ⟨-, happly⟩ | ⟨-, -, rfl⟩⟩ := onSim_cases h
      · exact processMarketData_live hlive happly
      · exact hlive
  | bbboSub sender =>
      cases h
      have hlike : s.book.Like { s.book with bbboSubs := true } :=
        ⟨fun side => by cases side <;> rfl, rfl, rfl⟩
      exact hlike.live hlive
  | subscribe hi sender =>
      obtain ⟨-, -, rfl | rfl⟩ := subscribe_cases h <;> exact hlive

/-! ### Our orders -/

/-- Nothing but our own orders waits. -/
def OnlySims (s : State Px) : Prop := ∀ p ∈ s.delQ, p.1.isSim = true

theorem handle_onlySims {e : Event Px} {o : List Sent} (hs : Held cfg ops s) (hsims : OnlySims s)
    (h : handle cfg ops s e = some (s', o)) : OnlySims s' := by
  obtain ⟨acts, hpath, -, hwaits⟩ := handle_path hs h
  have hqueue := hpath.delQ
  rw [hwaits] at hqueue
  intro p hp
  have hmem : p ∈ s.delQ ++ s.arrival e := by
    rw [← hqueue]
    exact List.mem_append_right _ hp
  rcases List.mem_append.mp hmem with hmem | hmem
  · exact hsims p hmem
  · cases e with
    | sim q sender =>
        unfold State.arrival at hmem
        dsimp only at hmem
        split at hmem
        · exact (List.not_mem_nil hmem).elim
        · rw [List.mem_singleton.mp hmem]
          exact (onSim_cases h).1
    | _ => exact (List.not_mem_nil hmem).elim

/-! ### Runs -/

/-- What holds of every state a book reaches. -/
structure Reached (cfg : FeedCfg) (ops : PriceOps Px) (s : State Px) : Prop where
  held : Held cfg ops s
  sims : OnlySims s
  live : Live cfg.toCfg s.book.noSims

theorem reached_new (cfg : FeedCfg) (ops : PriceOps Px) : Reached cfg ops (State.new Px cfg) where
  held := held_new cfg ops
  sims _ hp := (List.not_mem_nil hp).elim
  live := live_new cfg.toCfg

/-- **Every state a book reaches.** -/
theorem reached_of_run {es : List (Event Px)} {out : List Sent}
    (hrun : run (handle cfg ops) (State.new Px cfg) es = some (s, out)) : Reached cfg ops s := by
  refine run_invariant (I := fun _ _ s => Reached cfg ops s) (reached_new cfg ops) ?_ hrun
  rintro _ _ s e s' o ⟨hheld, hsims, hlive⟩ h
  obtain ⟨-, -, hheld', -⟩ := handle_path hheld h
  exact ⟨hheld', handle_onlySims hheld hsims h, handle_live hheld hlive h⟩

/-- Nothing of the exchange rests off the ladder. -/
theorem Reached.resting_off_ladder (hs : Reached cfg ops s) {side : Side} {p : ℤ}
    (hp : ¬ (0 < p ∧ p < cfg.maxprice)) : s.book.resting (side, p) = [] := by
  rw [← resting_noSims]
  unfold Book.resting
  rw [List.map_eq_nil_iff, List.eq_nil_iff_forall_not_mem]
  intro o ho
  exact hp (hs.live.on_ladder side p o (mem_reals.mp ho).1)

end KasparHft.OB
