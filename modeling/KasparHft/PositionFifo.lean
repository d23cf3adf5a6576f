import KasparHft.PositionPnl

/-!
# First in, first out

The accounting that the tests of the position describe closes the oldest entry first.  `Fifo`
is that ledger; the position closes the newest first.  A trade that closes all that is open
realizes the same from either end, so the two part exactly where a trade closes a part of the
position and that part cost differently at the two ends.
-/

namespace KasparHft.Pos

open Machine

/-! ### The ledger -/

/-- The open entries, the oldest first, and what is realized. -/
structure Fifo where
  lots : List PosEntry := []
  realized : ℚ := 0
deriving DecidableEq, Repr

/-- Closes the oldest first; what is left of the trade opens a position. -/
def closeOldest : List PosEntry → PosEntry → List PosEntry × ℚ
  | [], e => ([e], 0)
  | i :: rest, e =>
      if e.sz < i.sz then ({ i with sz := i.sz - e.sz } :: rest, gain i e.sz e.tradePrice)
      else if i.sz = e.sz then (rest, gain i i.sz e.tradePrice)
      else
        let r := closeOldest rest { e with sz := e.sz - i.sz }
        (r.1, gain i i.sz e.tradePrice + r.2)

/-- A trade of the same side goes behind; one of the other side closes from the front. -/
def Fifo.add (f : Fifo) (e : PosEntry) : Fifo :=
  match f.lots with
  | [] => { f with lots := [e] }
  | oldest :: rest =>
      if e.tradeType = oldest.tradeType then { f with lots := oldest :: rest ++ [e] }
      else
        let r := closeOldest (oldest :: rest) e
        { lots := r.1, realized := f.realized + r.2 }

/-- What the first `k` units of the entries cost. -/
def takenCost : ℤ → List PosEntry → ℚ
  | _, [] => 0
  | k, i :: rest =>
      if k ≤ i.sz then k * i.tradePrice else i.sz * i.tradePrice + takenCost (k - i.sz) rest

/-- A trade that closes a part of the position closes entries that cost the same at its newest
    and at its oldest end. -/
def ClosesAlike (s : Position × Fifo) (e : PosEntry) : Prop :=
  e.tradeType.sign * net s.1.openPositions < 0 → e.sz < |net s.1.openPositions| →
    takenCost e.sz s.1.openPositions = takenCost e.sz s.2.lots

instance (s : Position × Fifo) (e : PosEntry) : Decidable (ClosesAlike s e) := by
  unfold ClosesAlike
  infer_instance

/-! ### What closing costs -/

section Costs

variable {e : PosEntry} {pes r : List PosEntry} {side : Side} {pnl : ℚ} {k : ℤ}

/-- The units of the entries. -/
def units (pes : List PosEntry) : ℤ := (pes.map PosEntry.sz).sum

@[simp] theorem units_nil : units [] = 0 := rfl

@[simp] theorem units_cons (pe : PosEntry) (pes : List PosEntry) :
    units (pe :: pes) = pe.sz + units pes := by
  simp [units]

theorem units_nonneg (h : ∀ pe ∈ pes, 0 ≤ pe.sz) : 0 ≤ units pes := by
  induction pes with
  | nil => exact le_rfl
  | cons pe pes ih =>
      obtain ⟨hpe, hrest⟩ := List.forall_mem_cons.mp h
      rw [units_cons]
      have := ih hrest
      omega

theorem net_eq_units (h : ∀ pe ∈ pes, pe.tradeType = side) : net pes = side.sign * units pes := by
  induction pes with
  | nil => rw [net_nil, units_nil, mul_zero]
  | cons pe pes ih =>
      obtain ⟨hpe, hrest⟩ := List.forall_mem_cons.mp h
      rw [net_cons, units_cons, ih hrest, hpe]
      ring

theorem abs_net (hside : ∀ pe ∈ pes, pe.tradeType = side) (hnn : ∀ pe ∈ pes, 0 ≤ pe.sz) :
    |net pes| = units pes := by
  have hunits := units_nonneg hnn
  rw [net_eq_units hside]
  cases side with
  | buy => rw [Side.sign_buy, one_mul, abs_of_nonneg hunits]
  | sel => rw [Side.sign_sel, neg_one_mul, abs_neg, abs_of_nonneg hunits]

theorem takenCost_zero (h : ∀ pe ∈ pes, 0 ≤ pe.sz) : takenCost 0 pes = 0 := by
  cases pes with
  | nil => rfl
  | cons i rest =>
      unfold takenCost
      rw [if_pos (h i List.mem_cons_self), Int.cast_zero, zero_mul]

theorem takenCost_le {i : PosEntry} {rest : List PosEntry} (hk : k ≤ i.sz) :
    takenCost k (i :: rest) = k * i.tradePrice := if_pos hk

/-- Past the first entry the units come from the others. -/
theorem takenCost_past {i : PosEntry} {rest : List PosEntry} (hrest : ∀ pe ∈ rest, 0 ≤ pe.sz)
    (hk : 0 ≤ k) : takenCost (i.sz + k) (i :: rest) = i.sz * i.tradePrice + takenCost k rest := by
  rcases hk.eq_or_lt with rfl | hpos
  · rw [add_zero, takenCost_le le_rfl, takenCost_zero hrest, add_zero]
  · have hgt : ¬ i.sz + k ≤ i.sz := by omega
    rw [takenCost, if_neg hgt, add_sub_cancel_left]

/-- All units cost what the entries are marked down by. -/
theorem takenCost_units (hside : ∀ pe ∈ pes, pe.tradeType = side) (hnn : ∀ pe ∈ pes, 0 ≤ pe.sz) :
    mark 0 pes = -(side.sign * takenCost (units pes) pes) := by
  induction pes with
  | nil =>
      rw [mark_nil, takenCost]
      ring
  | cons i rest ih =>
      obtain ⟨hi, hrest⟩ := List.forall_mem_cons.mp hside
      obtain ⟨-, hnnrest⟩ := List.forall_mem_cons.mp hnn
      rw [mark_cons, units_cons, takenCost_past hnnrest (units_nonneg hnnrest), ih hrest hnnrest]
      unfold gain
      rw [hi]
      ring

/-- **What closing out realizes**: the units closed at the price of the trade, less their
    cost. -/
theorem closeOutPositions_pnl (hside : ∀ pe ∈ pes, pe.tradeType = side)
    (hnn : ∀ pe ∈ pes, 0 ≤ pe.sz) (he : e.tradeType ≠ side)
    (h : closeOutPositions pes e = some (r, pnl)) :
    pnl = side.sign *
      ((min e.sz (units pes) : ℤ) * e.tradePrice - takenCost (min e.sz (units pes)) pes) := by
  induction pes generalizing e r pnl with
  | nil => cases h
  | cons i rest ih =>
      obtain ⟨hi, hrest⟩ := List.forall_mem_cons.mp hside
      obtain ⟨hisz, hnnrest⟩ := List.forall_mem_cons.mp hnn
      have hunits := units_nonneg hnnrest
      obtain ⟨-, hcloses⟩ := closeOutPositions_cons (by rw [hi]; exact he.symm) h
      rw [units_cons]
      cases hcloses with
      | part hlt =>
          rw [min_eq_left (by omega), takenCost_le hlt.le]
          unfold gain
          rw [hi]
          ring
      | whole heq =>
          rw [min_eq_left (by omega), takenCost_le heq.ge, heq]
          unfold gain
          rw [hi]
          ring
      | turns hlt hlast =>
          rw [hlast, units_nil, add_zero, min_eq_right hlt.le, takenCost_le le_rfl]
          unfold gain
          rw [hi]
          ring
      | goesOn hlt hmore hrec =>
          have hpnl := ih (e := { e with sz := e.sz - i.sz }) hrest hnnrest he hrec
          dsimp only at hpnl
          have hmin : min e.sz (i.sz + units rest) = i.sz + min (e.sz - i.sz) (units rest) := by
            omega
          rw [hmin, takenCost_past hnnrest (by omega), hpnl, Int.cast_add]
          unfold gain
          rw [hi]
          ring

/-- The ledger closes as `closeOutPositions` does, from its own end. -/
theorem closeOldest_eq (hside : ∀ pe ∈ pes, pe.tradeType = side) (he : e.tradeType ≠ side)
    (h : closeOutPositions pes e = some (r, pnl)) : closeOldest pes e = (r, pnl) := by
  induction pes generalizing e r pnl with
  | nil => cases h
  | cons i rest ih =>
      obtain ⟨hi, hrest⟩ := List.forall_mem_cons.mp hside
      obtain ⟨-, hcloses⟩ := closeOutPositions_cons (by rw [hi]; exact he.symm) h
      unfold closeOldest
      cases hcloses with
      | part hlt => rw [if_pos hlt]
      | whole heq => rw [if_neg (by omega), if_pos heq]
      | turns hlt hlast =>
          rw [if_neg (by omega), if_neg (by omega), hlast]
          dsimp only
          rw [closeOldest, add_zero]
      | goesOn hlt hmore hrec =>
          rw [if_neg (by omega), if_neg (by omega)]
          dsimp only
          rw [ih (e := { e with sz := e.sz - i.sz }) hrest he hrec]

end Costs

/-! ### One trade -/

/-- The entries are on one side and have no negative size. -/
def OneSide (pes : List PosEntry) : Prop := ∃ side, ∀ pe ∈ pes, pe.tradeType = side ∧ 0 ≤ pe.sz

/-- What a trade realizes on entries that are closed from the front. -/
def closed (pes : List PosEntry) (e : PosEntry) : ℚ :=
  if e.tradeType.sign * net pes < 0 then
    -e.tradeType.sign * ((min e.sz |net pes| : ℤ) * e.tradePrice -
      takenCost (min e.sz |net pes|) pes)
  else 0

/-- A trade takes the entries `pes` to `qs` and realizes `pnl`. -/
structure Settles (pes qs : List PosEntry) (e : PosEntry) (pnl : ℚ) : Prop where
  oneSide : OneSide qs
  size : net qs = net pes + e.tradeType.sign * e.sz
  value : ∀ x, pnl + mark x qs = mark x pes + gain e e.sz x
  realized : pnl = closed pes e

section Trades

variable {p p' : Position} {f : Fifo} {e : PosEntry} {pes qs : List PosEntry} {side : Side}
  {pnl : ℚ}

theorem sign_mul_sign (side : Side) : side.sign * side.sign = 1 := by
  cases side <;> rfl

theorem sign_ne_zero (side : Side) : (side.sign : ℚ) ≠ 0 := by
  cases side <;> norm_num

theorem closed_eq_zero (h : 0 ≤ e.tradeType.sign * net pes) : closed pes e = 0 :=
  if_neg (not_lt.mpr h)

/-- A trade that opens is one entry more, wherever it goes. -/
theorem settles_of_perm (hperm : qs.Perm (e :: pes))
    (hsame : ∀ pe ∈ pes, pe.tradeType = e.tradeType ∧ 0 ≤ pe.sz) (he : 0 ≤ e.sz) :
    Settles pes qs e 0 where
  oneSide := by
    refine ⟨e.tradeType, fun pe hpe => ?_⟩
    rcases List.mem_cons.mp (hperm.subset hpe) with rfl | hpe
    · exact ⟨rfl, he⟩
    · exact hsame pe hpe
  size := by
    have hsum : net qs = net (e :: pes) := (hperm.map _).sum_eq
    rw [hsum, net_cons, add_comm]
  value := by
    intro x
    have hsum : mark x qs = mark x (e :: pes) := (hperm.map _).sum_eq
    rw [hsum, mark_cons, zero_add, add_comm]
  realized := by
    have hunits := units_nonneg fun pe hpe => (hsame pe hpe).2
    rw [closed_eq_zero]
    rw [net_eq_units fun pe hpe => (hsame pe hpe).1, ← mul_assoc, sign_mul_sign, one_mul]
    exact hunits

theorem settles_close (hside : ∀ pe ∈ pes, pe.tradeType = side ∧ 0 ≤ pe.sz)
    (he : e.tradeType ≠ side) (hsz : 0 ≤ e.sz)
    (h : closeOutPositions pes e = some (qs, pnl)) : Settles pes qs e pnl := by
  have hone : ∀ pe ∈ pes, pe.tradeType = side := fun pe hpe => (hside pe hpe).1
  have hnn : ∀ pe ∈ pes, 0 ≤ pe.sz := fun pe hpe => (hside pe hpe).2
  obtain ⟨⟨side', hafter⟩, hnnafter, hnet⟩ := closeOutPositions_some hone he h
  refine ⟨⟨side', fun pe hpe => ⟨hafter pe hpe, hnnafter hnn pe hpe⟩⟩, hnet,
    fun x => closeOutPositions_mark hone he h, ?_⟩
  have hunits := units_nonneg hnn
  have hsign : e.tradeType.sign = -side.sign := Side.sign_of_ne he
  have hopposite : e.tradeType.sign * net pes = -units pes := by
    rw [net_eq_units hone, hsign, neg_mul, ← mul_assoc, sign_mul_sign, one_mul]
  rw [closeOutPositions_pnl hone hnn he h]
  unfold closed
  rw [hopposite, abs_net hone hnn]
  split
  · rw [hsign, Int.cast_neg, neg_neg]
  next hflat =>
    have hzero : units pes = 0 := by omega
    rw [hzero, min_eq_right hsz, takenCost_zero hnn]
    ring

/-- What a trade does to the position. -/
theorem addToPosition_settles (hp : OneSide p.openPositions) (he : 0 ≤ e.sz)
    (h : p.addToPosition e = some p') :
    Settles p.openPositions p'.openPositions e (p'.realizedPnl - p.realizedPnl) := by
  obtain ⟨side, hside⟩ := hp
  rcases addToPosition_cases h with ⟨hsame, hopen, hreal⟩ |
    ⟨front, rest, r, pnl, hps, hne, hclose, hopen, hreal⟩
  · rw [hopen, hreal, sub_self]
    refine settles_of_perm (.refl _) (fun pe hpe => ?_) he
    rcases hps : p.openPositions with _ | ⟨front, rest⟩
    · rw [hps] at hpe
      cases hpe
    · rw [hps] at hside hsame hpe
      have hfront : front.tradeType = e.tradeType := hsame front rfl
      rw [← hfront, (hside front List.mem_cons_self).1]
      exact hside pe hpe
  · have hfront : front.tradeType = side :=
      (hside front (by rw [hps]; exact List.mem_cons_self)).1
    rw [hopen, hreal, add_sub_cancel_left]
    exact settles_close hside (by rwa [← hfront]) he hclose

/-- What a trade does to the ledger. -/
theorem add_settles (hf : OneSide f.lots) (he : 0 ≤ e.sz) :
    Settles f.lots (f.add e).lots e ((f.add e).realized - f.realized) := by
  obtain ⟨side, hside⟩ := hf
  unfold Fifo.add
  rcases hlots : f.lots with _ | ⟨oldest, rest⟩
  · dsimp only
    rw [sub_self]
    exact settles_of_perm (.refl _) (fun pe hpe => by cases hpe) he
  · rw [hlots] at hside
    obtain ⟨holdest, -⟩ := hside oldest List.mem_cons_self
    dsimp only
    split
    next hsame =>
      rw [sub_self]
      refine settles_of_perm ?_ (fun pe hpe => ?_) he
      · exact List.perm_append_singleton e (oldest :: rest)
      · rw [hsame, holdest]
        exact hside pe hpe
    next hdiffer =>
      rw [holdest] at hdiffer
      obtain ⟨r, pnl, hclose⟩ := exists_closeOutPositions (List.cons_ne_nil oldest rest) hside
        hdiffer he
      rw [closeOldest_eq (fun pe hpe => (hside pe hpe).1) hdiffer hclose]
      dsimp only
      rw [add_sub_cancel_left]
      exact settles_close hside hdiffer he hclose

/-- Entries of one net size and one value realize the same exactly when they are closed
    alike. -/
theorem closed_eq_iff (hpes : OneSide pes) (hqs : OneSide qs) (hnet : net pes = net qs)
    (hvalue : mark 0 pes = mark 0 qs) :
    closed pes e = closed qs e ↔
      (e.tradeType.sign * net pes < 0 → e.sz < |net pes| →
        takenCost e.sz pes = takenCost e.sz qs) := by
  unfold closed
  rw [← hnet]
  by_cases hopposite : e.tradeType.sign * net pes < 0
  · have hcancel : ∀ a b c : ℚ, -(e.tradeType.sign : ℚ) * (a - b) = -e.tradeType.sign * (a - c) ↔
        b = c := by
      intro a b c
      rw [mul_right_inj' (neg_ne_zero.mpr (sign_ne_zero e.tradeType)), sub_right_inj]
    rw [if_pos hopposite, if_pos hopposite, hcancel]
    by_cases hpart : e.sz < |net pes|
    · rw [min_eq_left hpart.le]
      exact ⟨fun h _ _ => h, fun h => h hopposite hpart⟩
    · refine iff_of_true ?_ fun _ hlt => absurd hlt hpart
      rw [min_eq_right (not_lt.mp hpart)]
      -- all that is open is closed: the sides agree, and so do the costs
      obtain ⟨side, hside⟩ := hpes
      obtain ⟨side', hside'⟩ := hqs
      have hone := fun pe hpe => (hside pe hpe).1
      have hone' := fun pe hpe => (hside' pe hpe).1
      have hnn := fun pe hpe => (hside pe hpe).2
      have hnn' := fun pe hpe => (hside' pe hpe).2
      have hsides : side = side' := by
        have heq := (net_eq_units hone).symm.trans (hnet.trans (net_eq_units hone'))
        have hpos := units_nonneg hnn
        have hpos' := units_nonneg hnn'
        have hne : units pes ≠ 0 := by
          intro hzero
          rw [net_eq_units hone, hzero] at hopposite
          simp at hopposite
        cases side <;> cases side' <;> simp only [Side.sign_buy, Side.sign_sel] at heq ⊢ <;> omega
      have hcost := takenCost_units hone hnn
      have hcost' := takenCost_units hone' hnn'
      rw [hvalue, hcost', ← hsides, neg_inj, mul_right_inj' (sign_ne_zero side)] at hcost
      rw [abs_net hone hnn, ← hcost, ← abs_net hone' hnn', ← hnet, abs_net hone hnn]
  · rw [if_neg hopposite, if_neg hopposite]
    exact iff_of_true rfl fun h => absurd h hopposite

end Trades

/-! ### Runs -/

/-- A trade, taken by the position and by the ledger. -/
def bothTrade : Position × Fifo → PosEntry → Option ((Position × Fifo) × List ℚ) :=
  withGhost Position.trade fun _ e f => f.add e

/-- The position and the ledger hold the same and are worth the same. -/
structure SameWorth (s : Position × Fifo) : Prop where
  position : OneSide s.1.openPositions
  lots : OneSide s.2.lots
  size : net s.1.openPositions = net s.2.lots
  value : ∀ x, s.1.realizedPnl + mark x s.1.openPositions = s.2.realized + mark x s.2.lots

theorem sameWorth_new : SameWorth ({}, {}) where
  position := ⟨.buy, fun pe hpe => by cases hpe⟩
  lots := ⟨.buy, fun pe hpe => by cases hpe⟩
  size := rfl
  value := fun _ => rfl

section Runs

variable {s s' : Position × Fifo} {e : PosEntry} {o : List ℚ}

theorem bothTrade_cases (h : bothTrade s e = some (s', o)) :
    s.1.addToPosition e = some s'.1 ∧ s'.2 = s.2.add e := by
  obtain ⟨htrade, hghost⟩ := withGhost_eq_some.mp h
  obtain ⟨p', hadd, heq⟩ := Option.map_eq_some_iff.mp htrade
  cases heq
  exact ⟨hadd, hghost⟩

theorem bothTrade_sameWorth (hs : SameWorth s) (he : 0 ≤ e.sz)
    (h : bothTrade s e = some (s', o)) : SameWorth s' := by
  obtain ⟨hadd, hghost⟩ := bothTrade_cases h
  have hp := addToPosition_settles hs.position he hadd
  have hf := add_settles hs.lots he
  rw [← hghost] at hf
  refine ⟨hp.oneSide, hf.oneSide, by rw [hp.size, hf.size, hs.size], fun x => ?_⟩
  have hpx := hp.value x
  have hfx := hf.value x
  have hsx := hs.value x
  linarith

/-- **One trade** keeps what is realized the same exactly when it closes alike. -/
theorem bothTrade_realized_iff (hs : SameWorth s) (he : 0 ≤ e.sz)
    (hsame : s.1.realizedPnl = s.2.realized) (h : bothTrade s e = some (s', o)) :
    s'.1.realizedPnl = s'.2.realized ↔ ClosesAlike s e := by
  obtain ⟨hadd, hghost⟩ := bothTrade_cases h
  have hp := (addToPosition_settles hs.position he hadd).realized
  have hf := (add_settles hs.lots he).realized
  rw [← hghost] at hf
  have hvalue : mark 0 s.1.openPositions = mark 0 s.2.lots := by
    have hs0 := hs.value 0
    rw [hsame] at hs0
    exact add_left_cancel hs0
  unfold ClosesAlike
  rw [← closed_eq_iff hs.position hs.lots hs.size hvalue, ← hp, ← hf, hsame, sub_left_inj]

/-- **First in, first out.**  After each of the trades the position has realized what the ledger
    that closes the oldest entry first has, exactly when each trade that closes a part of the
    position closes entries that cost the same at its newest and at its oldest end. -/
theorem realized_fifo_iff {trades : List PosEntry} (hsz : ∀ e ∈ trades, 0 ≤ e.sz) :
    (∀ past rest s out, trades = past ++ rest → run bothTrade ({}, {}) past = some (s, out) →
      s.1.realizedPnl = s.2.realized) ↔ AllSteps bothTrade ClosesAlike ({}, {}) trades := by
  obtain ⟨p, out, hrun⟩ := exists_run_trade hsz
  obtain ⟨f, hboth⟩ := run_withGhost (fun _ e f => Fifo.add f e) {} hrun
  exact always_iff_allSteps (I := fun _ s => s.1.realizedPnl = s.2.realized)
    (J := fun _ s => SameWorth s) (Q := fun _ e => 0 ≤ PosEntry.sz e) sameWorth_new rfl
    (fun _ _ _ _ _ hs he _ _ h => bothTrade_sameWorth hs he h)
    (fun _ _ _ _ _ hs he hsame h => bothTrade_realized_iff hs he hsame h)
    (allSteps_of_forall hsz _) hboth

/-- Two entries at different prices, and a trade of the other side. -/
def twoLots (sz : ℤ) : List PosEntry :=
  [⟨.buy, 100, 10⟩, ⟨.buy, 110, 10⟩, ⟨.sel, 120, sz⟩]

/-- Both are closed. -/
theorem realized_fifo_iff_whole :
    ∃ s out, run bothTrade ({}, {}) (twoLots 20) = some (s, out) ∧
      s.1.realizedPnl = s.2.realized := by
  have hsome : (run bothTrade ({}, {}) (twoLots 20)).isSome := by decide +kernel
  obtain ⟨⟨s, out⟩, hrun⟩ := Option.isSome_iff_exists.mp hsome
  have hsz : ∀ e ∈ twoLots 20, 0 ≤ e.sz := by decide +kernel
  have hall := (realized_fifo_iff hsz).mpr (by decide +kernel)
  exact ⟨s, out, hrun, hall _ [] s out (List.append_nil _).symm hrun⟩

/-- Half of them is closed: the position realizes 100, the ledger 200. -/
theorem partial_close_takes_newest :
    ∃ s out, run bothTrade ({}, {}) (twoLots 10) = some (s, out) ∧
      s.1.realizedPnl = 100 ∧ s.2.realized = 200 := by
  have hout : (run bothTrade ({}, {}) (twoLots 10)).map
      (fun r => (r.1.1.realizedPnl, r.1.2.realized)) = some (100, 200) := by decide +kernel
  obtain ⟨⟨s, out⟩, hrun, heq⟩ := Option.map_eq_some_iff.mp hout
  obtain ⟨hreal, hfifo⟩ := Prod.mk.inj heq
  exact ⟨s, out, hrun, hreal, hfifo⟩

end Runs

end KasparHft.Pos
