import KasparHft.OrderBookSweep

/-!
# Our orders at the market

In simulation one of our orders that reaches the best price of the other side fills: on
arrival, or when an add of the exchange moves that price to it, whose sweep covers the way
from the old price to the new one.  `fill_sim_on_arrival` does neither in a locked book,
and nothing looks at the order again when the lock ends.  So the orders that rest at or
through the market are those that arrived there in a locked or crossed book, and any other
order that reaches the market fills then, for all that is left of it.
-/

namespace KasparHft.OB

open Ladder Machine

/-- Level `p` of `side` is at the best price of the other side, or through it. -/
def Book.Through (b : Book) (side : Side) (p : ℤ) : Prop :=
  match side with
  | .buy => b.bestAsk ≤ p
  | .sel => p ≤ b.bestBid

/-- The best prices of `b'` are no better than those of `b`. -/
def Relaxes (b b' : Book) : Prop := b'.bestBid ≤ b.bestBid ∧ b.bestAsk ≤ b'.bestAsk

theorem Relaxes.through {b b' : Book} (h : Relaxes b b') {side : Side} {p : ℤ}
    (hp : b'.Through side p) : b.Through side p := by
  obtain ⟨hbid, hask⟩ := h
  cases side with
  | buy => exact hask.trans hp
  | sel => exact le_trans hp hbid

theorem relaxes_of_noSims {b b' : Book} (h : b'.noSims = b.noSims) : Relaxes b b' := by
  have hbid : b'.noSims.bestBid = b.noSims.bestBid := congrArg Book.bestBid h
  have hask : b'.noSims.bestAsk = b.noSims.bestAsk := congrArg Book.bestAsk h
  exact ⟨hbid.le, hask.ge⟩

/-- Where a walk from `p` by `d` can end. -/
theorem walk_from (skip : ℤ → Bool) (d : ℤ) (n : ℕ) (p : ℤ) :
    ∃ k : ℕ, walk skip d n p = p + d * k := by
  obtain ⟨k, -, hend, -⟩ := walk_spec skip d n p
  exact ⟨k, hend⟩

theorem walk_down_le (skip : ℤ → Bool) (n : ℕ) (p : ℤ) : walk skip (-1) n p ≤ p := by
  obtain ⟨k, hk⟩ := walk_from skip (-1) n p
  omega

theorem le_walk_up (skip : ℤ → Bool) (n : ℕ) (p : ℤ) : p ≤ walk skip 1 n p := by
  obtain ⟨k, hk⟩ := walk_from skip 1 n p
  omega

/-! ### The best prices over one call -/

theorem adjust_relaxes {cfg : Cfg} {b b' : Book} {side : Side} {px : ℤ} {txtim mkt : ℕ}
    {n : List Note} (h : b.adjust cfg side px txtim mkt = some (b', n)) : Relaxes b b' := by
  cases side with
  | buy =>
      obtain ⟨-, -, hbid, hask⟩ := notify_keeps h
      refine ⟨?_, hask.ge⟩
      rw [hbid]
      dsimp only
      split
      · exact walk_down_le ..
      · exact le_rfl
  | sel =>
      obtain ⟨-, -, hbid, hask⟩ := notify_keeps h
      refine ⟨hbid.le, ?_⟩
      rw [hask]
      dsimp only
      split
      · exact le_walk_up ..
      · exact le_rfl

theorem mod_relaxes {cfg : Cfg} {b b' : Book} {a : ModArgs} {n : List Note}
    (h : b.mod cfg a = some (b', n)) : Relaxes b b' := by
  have hset : ∀ q, Relaxes b (b.setQ a.side a.px q) := by
    intro q
    cases a.side <;> exact ⟨le_rfl, le_rfl⟩
  cases mod_cases h with
  | offLadder _ => exact ⟨le_rfl, le_rfl⟩
  | missed _ _ _ => exact ⟨le_rfl, le_rfl⟩
  | @sim _ q _ _ _ _ _ => exact hset q
  | @real _ q _ _ _ _ _ _ _ hadj =>
      obtain ⟨hbid, hask⟩ := adjust_relaxes hadj
      exact ⟨hbid.trans (hset q).1, (hset q).2.trans hask⟩

/-- The best prices after an add of a real order: that of the other side is no better, that
    of its own is the new price or the old one. -/
theorem add_real_best {cfg : Cfg} {currtim : ℕ} {b b' : Book} {a : AddArgs} {n : List Note}
    (hid : isSim a.id = false) (hpx : a.px < cfg.maxprice)
    (h : b.add cfg currtim a = some (b', n)) :
    match a.side with
    | .buy => b'.bestBid = max b.bestBid a.px ∧ b.bestAsk ≤ b'.bestAsk
    | .sel => b'.bestAsk = min b.bestAsk a.px ∧ b'.bestBid ≤ b.bestBid := by
  obtain ⟨b₁, n₁, c, b₂, n₂, hsweep, hbo, rfl⟩ := add_real hid hpx h
  obtain ⟨qs, rfl, -⟩ := fillStraySimOrders_sweep hsweep
  rcases hside : a.side with _ | _
  · rw [hside] at hbo
    obtain ⟨-, -, hbid, hask⟩ := checkForBoChange_buy hbo
    have hbid : b₂.bestBid = if b.bestBid < a.px then a.px else b.bestBid := hbid
    refine ⟨?_, ?_⟩
    · change b₂.bestBid = _
      rw [hbid]
      split <;> omega
    · change b.bestAsk ≤ b₂.bestAsk
      rcases hask with hwalk | ⟨-, hsame⟩
      · rw [hwalk]
        exact le_walk_up ..
      · exact hsame.ge
  · rw [hside] at hbo
    obtain ⟨-, -, hask, hbid⟩ := checkForBoChange_sel hbo
    have hask : b₂.bestAsk = if a.px < b.bestAsk then a.px else b.bestAsk := hask
    refine ⟨?_, ?_⟩
    · change b₂.bestAsk = _
      rw [hask]
      split <;> omega
    · change b₂.bestBid ≤ b.bestBid
      rcases hbid with hwalk | ⟨-, hsame⟩
      · rw [hwalk]
        exact walk_down_le ..
      · exact hsame.le

/-- A sim order that survives the sweep of an add is not at a level the add made the market
    reach. -/
theorem add_through {cfg : Cfg} {currtim : ℕ} {b b' : Book} {a : AddArgs} {n : List Note}
    (hsimul : cfg.doCrossCheck = true) (hb : Sided b) (hid : isSim a.id = false)
    (hpx : 0 < a.px ∧ a.px < cfg.maxprice) (h : b.add cfg currtim a = some (b', n))
    {side : Side} {p : ℤ} {o : Order} (ho : o ∈ b'.qs side p) (hsim : o.isSim = true)
    (hthrough : b'.Through side p) : b.Through side p := by
  have hbest := add_real_best hid hpx.2 h
  obtain ⟨b₁, n₁, c, b₂, n₂, hsweep, hbo, rfl⟩ := add_real hid hpx.2 h
  obtain ⟨qs, rfl, hqs, -⟩ := fillStraySimOrders_eq hb hpx hsweep
  by_cases hside : side = a.side
  · -- the best price of the other side is no better than before
    subst hside
    revert hbest hthrough
    unfold Book.Through
    rcases a.side with _ | _ <;> dsimp only <;> omega
  · obtain rfl : side = a.side.other := by
      revert hside
      cases side <;> cases a.side <;> intro hside <;> first | rfl | exact absurd rfl hside
    rw [qs_setQ, if_neg (fun hat => hside hat.1), checkForBoChange_qs hbo] at ho
    have ho : o ∈ qs p := by
      have hqs₁ := congrFun ((qs_setQs b a.side.other qs a.side.other).trans (if_pos rfl)) p
      exact hqs₁ ▸ ho
    -- the level was not swept
    have hnot : p ∉ b.sweptLevels cfg a.side a.px := by
      intro hp
      rw [hqs, if_pos hp, sweptQ, hsimul] at ho
      have hreal := (mem_reals.mp ho).2
      rw [hsim] at hreal
      cases hreal
    revert hbest hthrough hnot
    unfold Book.Through Book.sweptLevels
    rw [hsimul]
    rcases a.side with _ | _
    · dsimp only [Side.other]
      intro hthrough hbest hnot
      by_cases hnew : b.bestBid < a.px
      · rw [if_pos (.inl hnew), if_pos rfl, Finset.mem_Icc] at hnot
        omega
      · omega
    · dsimp only [Side.other]
      intro hthrough hbest hnot
      by_cases hnew : a.px < b.bestAsk
      · rw [if_pos (.inl hnew), if_pos rfl, Finset.mem_Icc] at hnot
        omega
      · omega

/-- **One call**: an order of ours at or through the market was there before the call, or
    arrives in a locked or crossed book. -/
theorem step_through {cfg : Cfg} {b b' : Book} {c : Call} {n : List Note}
    (hsimul : cfg.doCrossCheck = true) (hb : Sided b) (hladder : InLadder cfg c)
    (h : step cfg b c = some (b', n)) {side : Side} {p : ℤ} {o : Order}
    (ho : o ∈ b'.qs side p) (hsim : o.isSim = true) (hthrough : b'.Through side p) :
    (∃ o₀ ∈ b.qs side p, o₀.id = o.id ∧ b.Through side p) ∨
      ∃ currtim a, c = .add currtim a ∧ a.id = o.id ∧ a.side = side ∧ a.px = p ∧
        b.bestAsk ≤ b.bestBid ∧ b.Through side p := by
  have hback : b.Through side p := by
    cases c with
    | add currtim a =>
        rcases hid : isSim a.id with _ | _
        · exact add_through hsimul hb hid hladder h ho hsim hthrough
        · exact (relaxes_of_noSims (add_noSims_of_sim hid h)).through hthrough
    | mod a => exact (mod_relaxes h).through hthrough
    | clear =>
        rw [clear_qs h] at ho
        cases ho
  rcases step_mem h ho with ⟨o₀, ho₀, hid, -⟩ | ⟨currtim, a, rfl, rfl, rfl, rfl, hrest⟩
  · exact .inl ⟨o₀, ho₀, hid, hback⟩
  · -- it did not fill on arrival
    refine .inr ⟨currtim, a, rfl, rfl, rfl, rfl, ?_, hback⟩
    have hnone := hrest hsim
    revert hback hnone
    unfold Book.Through Book.arrivalPx
    rcases a.side with _ | _
    · dsimp only
      intro hle hnone
      by_contra hlt
      rw [if_pos ⟨hle, not_le.mp hlt⟩] at hnone
      cases hnone
    · dsimp only
      intro hle hnone
      by_contra hlt
      rw [if_pos ⟨hle, not_le.mp hlt⟩] at hnone
      cases hnone

/-! ### Fills -/

/-- The order is filled at `px` for all that is left of it, and its originator is told. -/
def FilledWhole (o : Order) (px : ℤ) (tim : ℕ) (n : List Note) : Prop :=
  ∃ dest, o.originator = some dest ∧
    Note.fill dest o.id.id o.id.exchid px o.side o.sz 0 o.owner tim ∈ n

theorem FilledWhole.mono {o : Order} {px : ℤ} {tim : ℕ} {n n' : List Note}
    (h : FilledWhole o px tim n) (hn : n ⊆ n') : FilledWhole o px tim n' := by
  obtain ⟨dest, horig, hmem⟩ := h
  exact ⟨dest, horig, hn hmem⟩

theorem fillNotify_whole {o o' : Order} {px : ℤ} {tim : ℕ} {note : Note}
    (h : o.fillNotify o.sz px tim = some (o', note)) : FilledWhole o px tim [note] := by
  obtain ⟨dest, horig, -, -, -, -, rfl⟩ := fillNotify_eq_some.mp h
  rw [sub_self]
  exact ⟨dest, horig, List.mem_singleton_self _⟩

theorem fill_filled {px : ℤ} {tim : ℕ} {o : Order} {left : List Order} {n : List Note}
    (h : fill px tim [o] o.sz = some (left, n)) : FilledWhole o px tim n := by
  cases (fill_cases h).2 with
  | goesOn _ _ hmore _ => exact absurd hmore.1 (by omega)
  | ends _ hfill _ => exact fillNotify_whole hfill
  | inPart hlt _ => exact absurd hlt (lt_irrefl _)

theorem sweepQ_filled {cfg : Cfg} {contra : Side} {px : ℤ} {tim : ℕ} {q q' : List Order}
    {n : List Note} {c : ℕ} (hsided : ∀ o ∈ q, o.side = contra)
    (h : sweepQ cfg contra px tim q = some (q', n, c)) {o : Order} (ho : o ∈ q)
    (hsim : o.isSim = true) : FilledWhole o px tim n := by
  induction q generalizing q' n c with
  | nil => cases ho
  | cons x os ih =>
      obtain ⟨hside, hrest⟩ := List.forall_mem_cons.mp hsided
      rcases List.mem_cons.mp ho with rfl | hos
      · cases sweepQ_cases h with
        | fills _ _ hfill _ => exact (fill_filled hfill).mono (List.subset_append_left _ _)
        | cancels hcanc _ _ => cases hsim.symm.trans hcanc.2.1
        | stays hours _ _ => exact absurd ⟨hsim, hside⟩ hours
      · cases sweepQ_cases h with
        | fills _ _ _ hrest' => exact (ih hrest hrest' hos).mono (List.subset_append_right _ _)
        | cancels _ _ hrest' => exact (ih hrest hrest' hos).mono (List.subset_append_right _ _)
        | stays _ _ hrest' => exact ih hrest hrest' hos

/-- Each level that the loops of the sweep visit has our orders filled, at its own price. -/
theorem sweep_filled {cfg : Cfg} {contra : Side} {d : ℤ} {stop : ℤ → Bool} {tim k : ℕ} {p : ℤ}
    {qs qs' : ℤ → List Order} {n : List Note} {c : ℕ} (hd : d = 1 ∨ d = -1)
    (hsided : ∀ r, ∀ o ∈ qs r, o.side = contra)
    (hstop : ∀ r ∈ levelsFrom d p k, r ≠ p → stop r = false)
    (h : sweep cfg contra d stop tim k p qs = some (qs', n, c)) {r : ℤ}
    (hr : r ∈ levelsFrom d p k) {o : Order} (ho : o ∈ qs r) (hsim : o.isSim = true) :
    FilledWhole o r tim n := by
  induction k generalizing p qs qs' n c with
  | zero => cases hr
  | succ k ih =>
      have hnew := not_mem_levelsFrom (p := p) hd k
      obtain ⟨q, nq, cq, hq, hgo⟩ := sweep_cases h
      rw [levelsFrom_succ] at hstop hr
      rcases Finset.mem_insert.mp hr with rfl | hr
      · have hfilled := sweepQ_filled (hsided r) hq ho hsim
        rcases hgo with ⟨-, -, rfl, -⟩ | ⟨nr, cr, -, rfl, -, -⟩
        · exact hfilled
        · exact hfilled.mono (List.subset_append_left _ _)
      · have hrp : r ≠ p := by
          rintro rfl
          exact hnew hr
        rcases hgo with ⟨hend, -, -, -⟩ | ⟨nr, cr, -, rfl, -, hrest⟩
        · -- the loop is not left before its last level
          cases k with
          | zero => cases hr
          | succ k =>
              have hmem : p + d ∈ levelsFrom d (p + d) (k + 1) := by
                rw [levelsFrom_succ]
                exact Finset.mem_insert_self ..
              have hne : p + d ≠ p := by rcases hd with rfl | rfl <;> omega
              rw [hstop _ (Finset.mem_insert_of_mem hmem) hne] at hend
              cases hend
        · have hqs : ∀ r', ∀ x ∈ Function.update qs p q r', x.side = contra := by
            intro r' x hx
            by_cases hr' : r' = p
            · rw [hr', Function.update_self] at hx
              have hthin := (sweepQ_thins hq).descends x hx
              obtain ⟨x₀, hx₀, -, hside⟩ := hthin
              exact hside ▸ hsided p x₀ hx₀
            · rw [Function.update_of_ne hr'] at hx
              exact hsided r' x hx
          have hstop' : ∀ r ∈ levelsFrom d (p + d) k, r ≠ p + d → stop r = false := by
            intro r' hr' _
            apply hstop r' (Finset.mem_insert_of_mem hr')
            rintro rfl
            exact hnew hr'
          rw [← Function.update_of_ne hrp q qs] at ho
          exact (ih hqs hstop' hrest hr ho).mono (List.subset_append_right _ _)

theorem fillStraySimOrders_filled {cfg : Cfg} {b b' : Book} {side : Side} {px : ℤ} {txtim : ℕ}
    {n : List Note} {c : ℕ} (hb : Sided b) (hpx : 0 < px ∧ px < cfg.maxprice)
    (h : b.fillStraySimOrders cfg side px txtim = some (b', n, c)) {r : ℤ}
    (hr : r ∈ b.sweptLevels cfg side px) {o : Order} (ho : o ∈ b.qs side.other r)
    (hsim : o.isSim = true) : FilledWhole o r txtim n := by
  obtain ⟨⟨qs, n', c'⟩, hswept, heq⟩ := Option.map_eq_some_iff.mp h
  cases heq
  unfold Book.sweptLevels at hr
  cases side with
  | buy =>
      dsimp only at hswept hr
      split at hswept
      next hcross =>
        rw [if_pos hcross, ← levelsFrom_up] at hr
        refine sweep_filled (.inl rfl) (hb .sel) (fun r' hr' _ => ?_) hswept hr ho hsim
        rw [levelsFrom_up, Finset.mem_Icc] at hr'
        exact decide_eq_false (by omega)
      next hcross =>
        rw [if_neg hcross] at hr
        exact absurd hr (Finset.notMem_empty r)
  | sel =>
      dsimp only at hswept hr
      split at hswept
      next hcross =>
        rw [if_pos hcross, ← levelsFrom_down] at hr
        refine sweep_filled (.inr rfl) (hb .buy) (fun r' hr' _ => ?_) hswept hr ho hsim
        rw [levelsFrom_down, Finset.mem_Icc] at hr'
        exact decide_eq_false (by omega)
      next hcross =>
        rw [if_neg hcross] at hr
        exact absurd hr (Finset.notMem_empty r)

/-- **The stray sweep**: an order of ours that the add makes the market reach fills. -/
theorem add_filled {cfg : Cfg} {currtim : ℕ} {b b' : Book} {a : AddArgs} {n : List Note}
    (hsimul : cfg.doCrossCheck = true) (hb : Sided b) (hid : isSim a.id = false)
    (hpx : 0 < a.px ∧ a.px < cfg.maxprice) (h : b.add cfg currtim a = some (b', n))
    {side : Side} {p : ℤ} {o : Order} (ho : o ∈ b.qs side p) (hsim : o.isSim = true)
    (hnot : ¬ b.Through side p) (hthrough : b'.Through side p) :
    FilledWhole o p a.txtim n := by
  have hbest := add_real_best hid hpx.2 h
  have hlevel : side = a.side.other ∧ p ∈ b.sweptLevels cfg a.side a.px := by
    revert hbest hthrough hnot
    unfold Book.Through Book.sweptLevels
    rw [hsimul]
    rcases a.side with _ | _ <;> cases side <;> dsimp only [Side.other] <;>
      intro hnot hthrough hbest
    · omega
    · refine ⟨rfl, ?_⟩
      rw [if_pos (.inl (by omega)), if_pos rfl, Finset.mem_Icc]
      omega
    · refine ⟨rfl, ?_⟩
      rw [if_pos (.inl (by omega)), if_pos rfl, Finset.mem_Icc]
      omega
    · omega
  obtain ⟨rfl, hswept⟩ := hlevel
  cases add_cases h with
  | offLadder hoff => exact absurd hpx.2 (not_lt.mpr hoff)
  | arrives hours _ _ _ => cases hid.symm.trans hours
  | rests hours _ _ _ => cases hid.symm.trans hours
  | real _ _ hsweep _ _ =>
      exact (fillStraySimOrders_filled hb hpx hsweep hswept ho hsim).mono
        (List.subset_append_left _ _)

/-- The best price of the other side. -/
def Book.bestOpposite (b : Book) : Side → ℤ
  | .buy => b.bestAsk
  | .sel => b.bestBid

/-- What a call does for our orders that reach the market with it: one that arrives there in an
    open book fills at the best price of the other side and does not rest, and one that rests
    where the best price moves to fills at its own price, which leaves none of ours there. -/
structure FillsReached (b : Book) (c : Call) (b' : Book) (n : List Note) : Prop where
  arrival : ∀ currtim a, c = .add currtim a → isSim a.id = true → b.Through a.side a.px →
    b.bestBid < b.bestAsk →
      FilledWhole a.order (b.bestOpposite a.side) a.txtim n ∧ b' = b
  moved : c ≠ .clear → ∀ side p, ∀ o ∈ b.qs side p, o.isSim = true → ¬ b.Through side p →
    b'.Through side p →
      (∃ tim, FilledWhole o p tim n) ∧ ∀ x ∈ b'.qs side p, x.isSim = false

theorem step_fillsReached {cfg : Cfg} {b b' : Book} {c : Call} {n : List Note}
    (hsimul : cfg.doCrossCheck = true) (hb : Sided b) (hladder : InLadder cfg c)
    (h : step cfg b c = some (b', n)) : FillsReached b c b' n where
  arrival currtim a hc hid hthrough hopen := by
    subst hc
    have hadd : b.add cfg currtim a = some (b', n) := h
    cases add_cases hadd with
    | offLadder hoff => exact absurd hladder.2 (not_lt.mpr hoff)
    | arrives _ _ hat hfill =>
        refine ⟨?_, rfl⟩
        have hwhole := fillNotify_whole (o := a.order) hfill
        unfold Book.arrivalPx at hat
        unfold Book.bestOpposite
        revert hat
        rcases a.side with _ | _ <;> dsimp only <;> intro hat <;>
          split at hat <;> cases hat <;> exact hwhole
    | rests _ _ hnone _ =>
        unfold Book.arrivalPx at hnone
        revert hnone hthrough
        unfold Book.Through
        rcases a.side with _ | _ <;> dsimp only <;> intro hthrough hnone <;>
          rw [if_pos ⟨hthrough, hopen⟩] at hnone <;> cases hnone
    | real hreal _ _ _ _ => cases hid.symm.trans hreal
  moved hclear side p o ho hsim hnot hthrough := by
    cases c with
    | add currtim a =>
        rcases hid : isSim a.id with _ | _
        · refine ⟨⟨a.txtim, add_filled hsimul hb hid hladder h ho hsim hnot hthrough⟩, ?_⟩
          intro x hx
          rcases hours : x.isSim with _ | _
          · rfl
          · exact absurd (add_through hsimul hb hid hladder h hx hours hthrough) hnot
        · exact absurd ((relaxes_of_noSims (add_noSims_of_sim hid h)).through hthrough) hnot
    | mod a => exact absurd ((mod_relaxes h).through hthrough) hnot
    | clear => exact absurd rfl hclear

/-! ### Runs -/

/-- The order arrived in a locked or crossed book, at or through its best price. -/
def ArrivedLocked (cfg : Cfg) (cs : List Call) (side : Side) (p : ℤ) (id : LongId) : Prop :=
  ∃ pre currtim a post m out, cs = pre ++ Call.add currtim a :: post ∧
    run (step cfg) (Book.new cfg) pre = some (m, out) ∧
    a.id = id ∧ a.side = side ∧ a.px = p ∧ m.bestAsk ≤ m.bestBid ∧ m.Through side p

theorem through_arrived_locked {cfg : Cfg} {cs : List Call} {b : Book} {out : List Note}
    (hrun : run (step cfg) (Book.new cfg) cs = some (b, out)) (hsimul : cfg.doCrossCheck = true)
    (hladder : ∀ c ∈ cs, InLadder cfg c) :
    Sided b ∧ ∀ side p, ∀ o ∈ b.qs side p, o.isSim = true → b.Through side p →
      ArrivedLocked cfg cs side p o.id := by
  refine (run_induction (I := fun cs out b =>
    run (step cfg) (Book.new cfg) cs = some (b, out) ∧ Sided b ∧
      ∀ side p, ∀ o ∈ b.qs side p, o.isSim = true → b.Through side p →
        ArrivedLocked cfg cs side p o.id) ?_ ?_ (allSteps_of_forall hladder _) hrun).2
  · refine ⟨rfl, sided_new cfg, ?_⟩
    intro side p o ho
    cases side <;> cases ho
  · rintro cs out b c b' n ⟨hpast, hb, hI⟩ hc h
    refine ⟨run_concat.mpr ⟨b, out, n, hpast, h, rfl⟩, step_sided hb h, ?_⟩
    intro side p o ho hsim hthrough
    rcases step_through hsimul hb hc h ho hsim hthrough with
      ⟨o₀, ho₀, hid, hback⟩ | ⟨currtim, a, rfl, hid, hside, hp, hlocked, hback⟩
    · have hsim₀ : o₀.isSim = true := by
        rw [Order.isSim, hid]
        exact hsim
      obtain ⟨pre, currtim, a, post, m, out₀, rfl, hrest⟩ := hI side p o₀ ho₀ hsim₀ hback
      refine ⟨pre, currtim, a, post ++ [c], m, out₀, by simp, ?_⟩
      rw [← hid]
      exact hrest
    · exact ⟨cs, currtim, a, [], b, out, rfl, hpast, hid, hside, hp, hlocked, hback⟩

/-- **Our orders do not rest at or through the market**, in simulation, but for those that
    arrived there in a locked or crossed book.  Every other one that reaches the market is filled
    then, for all that is left of it. -/
theorem sims_through_arrived_locked {cfg : Cfg} {cs : List Call} {b : Book} {out : List Note}
    (hrun : run (step cfg) (Book.new cfg) cs = some (b, out)) (hsimul : cfg.doCrossCheck = true)
    (hladder : ∀ c ∈ cs, InLadder cfg c) :
    (∀ side p, ∀ o ∈ b.qs side p, o.isSim = true → b.Through side p →
      ArrivedLocked cfg cs side p o.id) ∧
    ∀ past c rest m before m' n, cs = past ++ c :: rest →
      run (step cfg) (Book.new cfg) past = some (m, before) → step cfg m c = some (m', n) →
      FillsReached m c m' n := by
  refine ⟨(through_arrived_locked hrun hsimul hladder).2, ?_⟩
  intro past c rest m before m' n hsplit hpast hstep
  have hmem : ∀ c' ∈ past, c' ∈ cs := fun c' hc' => hsplit ▸ List.mem_append_left _ hc'
  have hc : c ∈ cs := hsplit ▸ List.mem_append_right _ List.mem_cons_self
  have hsided := (through_arrived_locked hpast hsimul fun c' hc' => hladder c' (hmem c' hc')).1
  exact step_fillsReached hsimul hsided (hladder c hc) hstep

/-- The exchange's book is locked at 5, a bid of ours arrives above it, and the exchange's bid
    is cancelled. -/
def lockedCalls : List Call :=
  [realAdd 1 .buy 5 10, realAdd 2 .sel 5 10, simAdd 1 .buy 6 3, realCancd 1 .buy 5 10]

theorem lockedCalls_inLadder : ∀ c ∈ lockedCalls, InLadder (smallCfg true) c := by
  simp [lockedCalls, realAdd, simAdd, realCancd, InLadder, smallCfg]

theorem lockedCalls_run :
    ∃ b out, run (step (smallCfg true)) (Book.new (smallCfg true)) lockedCalls = some (b, out) ∧
      b.bestBid < b.bestAsk ∧ b.Through .buy 6 ∧ ∃ o ∈ b.qs .buy 6, o.isSim = true := by
  have hrun : (run (step (smallCfg true)) (Book.new (smallCfg true)) lockedCalls).map
      (fun r => (r.1.bestBid, r.1.bestAsk, (r.1.bidqs 6).map Order.isSim)) =
        some (1, 5, [true]) := by decide +kernel
  obtain ⟨⟨b, out⟩, hrun, heq⟩ := Option.map_eq_some_iff.mp hrun
  obtain ⟨hbid, hrest⟩ := Prod.mk.injEq .. ▸ heq
  obtain ⟨hask, hq⟩ := Prod.mk.injEq .. ▸ hrest
  refine ⟨b, out, hrun, ?_, ?_, ?_⟩
  · rw [hbid, hask]
    decide
  · change b.bestAsk ≤ 6
    rw [hask]
    decide
  · have hmem : true ∈ (b.bidqs 6).map Order.isSim := by
      rw [hq]
      exact List.mem_singleton_self true
    obtain ⟨o, ho, hsim⟩ := List.mem_map.mp hmem
    exact ⟨o, ho, hsim⟩

theorem sims_through_arrived_locked_bid :
    ∃ b out, run (step (smallCfg true)) (Book.new (smallCfg true)) lockedCalls = some (b, out) ∧
      ∃ o ∈ b.qs .buy 6, ArrivedLocked (smallCfg true) lockedCalls .buy 6 o.id := by
  obtain ⟨b, out, hrun, -, hthrough, o, ho, hsim⟩ := lockedCalls_run
  exact ⟨b, out, hrun, o, ho,
    (sims_through_arrived_locked hrun rfl lockedCalls_inLadder).1 .buy 6 o ho hsim hthrough⟩

/-- An order of ours can rest through an open book. -/
theorem sim_rests_through_after_lock :
    ¬ ∀ (cfg : Cfg) cs b out, run (step cfg) (Book.new cfg) cs = some (b, out) →
      cfg.doCrossCheck = true → (∀ c ∈ cs, InLadder cfg c) → b.bestBid < b.bestAsk →
      ∀ side p, ∀ o ∈ b.qs side p, o.isSim = true → ¬ b.Through side p := by
  intro hclaim
  obtain ⟨b, out, hrun, hopen, hthrough, o, ho, hsim⟩ := lockedCalls_run
  exact hclaim _ _ b out hrun rfl lockedCalls_inLadder hopen .buy 6 o ho hsim hthrough

end KasparHft.OB
