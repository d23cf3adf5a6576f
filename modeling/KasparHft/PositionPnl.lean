import KasparHft.Machine
import KasparHft.Position
import Mathlib.Tactic.Linarith

/-!
# Realized and unrealized profit

What a position has realized and what its open entries are worth add up to the cash that the
trades moved and the value of what is held, however the trades were matched.  What is realized
alone depends on the matching: entries are closed from the front, the newest first, and a
ledger that closes the oldest first has realized the same exactly as long as the entries
closed in part cost the same from either end.
-/

namespace KasparHft.Pos

open Machine

/-! ### Trades -/

/-- A trade, with the profit that `addToPosition` returns. -/
def Position.trade (p : Position) (e : PosEntry) : Option (Position × List ℚ) :=
  (p.addToPosition e).map fun p' => (p', [p'.realizedPnl - p.realizedPnl])

/-- What was traded on a side. -/
def traded (side : Side) (trades : List PosEntry) : ℤ :=
  ((trades.filter fun e => e.tradeType = side).map PosEntry.sz).sum

/-- The cash that the trades moved: out for a buy, in for a sell. -/
def cashFlow (trades : List PosEntry) : ℚ :=
  (trades.map fun e : PosEntry => ((-e.tradeType.sign * e.sz : ℤ) : ℚ) * e.tradePrice).sum

/-- What the entries would realize at `x`. -/
def mark (x : ℚ) (pes : List PosEntry) : ℚ := (pes.map fun pe => gain pe pe.sz x).sum

section Values

variable {p p' : Position} {e : PosEntry} {pes r : List PosEntry} {side : Side} {pnl x : ℚ}

@[simp] theorem mark_nil (x : ℚ) : mark x [] = 0 := rfl

@[simp] theorem mark_cons (x : ℚ) (pe : PosEntry) (pes : List PosEntry) :
    mark x (pe :: pes) = gain pe pe.sz x + mark x pes := by
  simp [mark]

theorem net_append (pes qs : List PosEntry) : net (pes ++ qs) = net pes + net qs := by
  unfold net
  rw [List.map_append, List.sum_append]

theorem net_eq_traded (trades : List PosEntry) :
    net trades = traded .buy trades - traded .sel trades := by
  unfold traded
  induction trades with
  | nil => rfl
  | cons e trades ih =>
      rw [net_cons, ih]
      cases he : e.tradeType <;> simp [he] <;> ring

theorem cashFlow_concat (trades : List PosEntry) (e : PosEntry) :
    cashFlow (trades ++ [e]) =
      cashFlow trades - (e.tradeType.sign * e.sz : ℤ) * e.tradePrice := by
  unfold cashFlow
  rw [List.map_append, List.sum_append, List.map_singleton, List.sum_singleton, neg_mul,
    Int.cast_neg, neg_mul, sub_eq_add_neg]

/-- The sizes that `totalSize` adds up. -/
theorem sizeFrom_eq_net {sign t : ℤ} (h : sizeFrom sign pes = some t) : t = net pes := by
  induction pes generalizing sign t with
  | nil => exact (Option.some.inj h).symm
  | cons pe pes ih =>
      unfold sizeFrom at h
      split at h
      · cases h
      · cases hside : pe.tradeType <;> rw [hside] at h <;> dsimp only at h <;> split at h
        · cases h
        · obtain ⟨t', ht', rfl⟩ := Option.map_eq_some_iff.mp h
          rw [net_cons, hside, ← ih ht', Side.sign_buy, one_mul]
        · cases h
        · obtain ⟨t', ht', rfl⟩ := Option.map_eq_some_iff.mp h
          rw [net_cons, hside, ← ih ht', Side.sign_sel, neg_one_mul]

/-- The values that `unrealPnl` adds up, marked at one price. -/
theorem unrealFrom_eq_mark {u : ℚ} (h : unrealFrom x x pes = some u) : u = mark x pes := by
  induction pes generalizing u with
  | nil => exact (Option.some.inj h).symm
  | cons pe pes ih =>
      unfold unrealFrom at h
      split at h
      · cases h
      · rw [mark_cons]
        unfold gain
        cases hside : pe.tradeType <;> rw [hside] at h <;>
          obtain ⟨u', hu', rfl⟩ := Option.map_eq_some_iff.mp h
        · rw [← ih hu', Side.sign_buy, Int.cast_one]
          ring
        · rw [← ih hu', Side.sign_sel, Int.cast_neg, Int.cast_one]
          ring

theorem exists_unrealFrom (bid off : ℚ) (h : ∀ pe ∈ pes, 0 ≤ pe.sz) :
    ∃ u, unrealFrom bid off pes = some u := by
  induction pes with
  | nil => exact ⟨0, rfl⟩
  | cons pe pes ih =>
      obtain ⟨hpe, hrest⟩ := List.forall_mem_cons.mp h
      obtain ⟨u, hu⟩ := ih hrest
      unfold unrealFrom
      rw [if_neg (not_lt.mpr hpe), hu]
      cases pe.tradeType with
      | buy => exact ⟨_, rfl⟩
      | sel => exact ⟨_, rfl⟩

/-- Closing out moves value from the open entries to what is realized. -/
theorem closeOutPositions_mark (hside : ∀ pe ∈ pes, pe.tradeType = side)
    (he : e.tradeType ≠ side) (h : closeOutPositions pes e = some (r, pnl)) :
    pnl + mark x r = mark x pes + gain e e.sz x := by
  induction pes generalizing e r pnl with
  | nil => cases h
  | cons i rest ih =>
      have hi := hside i List.mem_cons_self
      have hsign : (i.tradeType.sign : ℚ) = -e.tradeType.sign := by
        rw [hi, Side.sign_of_ne he.symm, Int.cast_neg]
      obtain ⟨-, hcloses⟩ := closeOutPositions_cons (by rw [hi]; exact he.symm) h
      cases hcloses with
      | part hlt =>
          rw [mark_cons, mark_cons]
          unfold gain
          dsimp only
          rw [hsign, Int.cast_sub]
          ring
      | whole heq =>
          rw [mark_cons, heq]
          unfold gain
          rw [hsign]
          ring
      | turns hlt hlast =>
          rw [hlast, mark_cons, mark_cons]
          unfold gain
          dsimp only
          rw [hsign, Int.cast_sub]
          ring
      | goesOn hlt hmore hrec =>
          have hrest := ih (e := { e with sz := e.sz - i.sz })
            (fun q hq => hside q (List.mem_cons_of_mem _ hq)) he hrec
          rw [add_assoc, hrest, mark_cons]
          unfold gain
          dsimp only
          rw [hsign, Int.cast_sub]
          ring

/-- **One trade**: realized and unrealized together move by what the trade is worth. -/
theorem addToPosition_mark (hside : ∃ side, ∀ pe ∈ p.openPositions, pe.tradeType = side)
    (h : p.addToPosition e = some p') (x : ℚ) :
    p'.realizedPnl + mark x p'.openPositions =
      p.realizedPnl + mark x p.openPositions + gain e e.sz x := by
  obtain ⟨side, hside⟩ := hside
  rcases addToPosition_cases h with ⟨-, hopen, hreal⟩ |
    ⟨front, rest, r, pnl, hps, hne, hclose, hopen, hreal⟩
  · rw [hopen, hreal, mark_cons]
    ring
  · have hfront : front.tradeType = side := hside front (by rw [hps]; exact List.mem_cons_self)
    have hmark := closeOutPositions_mark (x := x) hside (by rwa [← hfront]) hclose
    rw [hopen, hreal, add_assoc, hmark, add_assoc]

/-- What holds after any trades. -/
structure Balanced (trades : List PosEntry) (p : Position) : Prop where
  side : ∃ side, ∀ pe ∈ p.openPositions, pe.tradeType = side
  size : net p.openPositions = net trades
  value : ∀ x, p.realizedPnl + mark x p.openPositions = cashFlow trades + net trades * x
  nonneg : (∀ e ∈ trades, 0 ≤ e.sz) → ∀ pe ∈ p.openPositions, 0 ≤ pe.sz

theorem balanced_new : Balanced [] {} where
  side := ⟨.buy, fun pe hpe => by cases hpe⟩
  size := rfl
  value := fun x => by simp [cashFlow]
  nonneg := fun _ pe hpe => by cases hpe

theorem Balanced.trade {trades : List PosEntry} (hp : Balanced trades p)
    (h : p.addToPosition e = some p') : Balanced (trades ++ [e]) p' := by
  obtain ⟨hside, hnonneg, hnet⟩ := addToPosition_side hp.side h
  have htrades : net (trades ++ [e]) = net trades + e.tradeType.sign * e.sz := by
    rw [net_append, net_cons, net_nil, add_zero]
  refine ⟨hside, by rw [hnet, hp.size, htrades], fun x => ?_, fun hsz => ?_⟩
  · rw [addToPosition_mark hp.side h, hp.value, cashFlow_concat, htrades]
    unfold gain
    push_cast
    ring
  · obtain ⟨hpast, he⟩ := List.forall_mem_append.mp hsz
    exact hnonneg (hp.nonneg hpast) (he e List.mem_cons_self)

theorem run_balanced {trades : List PosEntry} {out : List ℚ}
    (hrun : run Position.trade {} trades = some (p, out)) : Balanced trades p := by
  refine run_invariant (I := fun trades _ p => Balanced trades p) balanced_new ?_ hrun
  intro past os p e p' o hp htrade
  obtain ⟨q, hadd, heq⟩ := Option.map_eq_some_iff.mp htrade
  cases heq
  exact hp.trade hadd

/-- Trades without a negative size never abort. -/
theorem exists_run_trade {trades : List PosEntry} (hsz : ∀ e ∈ trades, 0 ≤ e.sz) :
    ∃ p out, run Position.trade {} trades = some (p, out) := by
  have hstep : ∀ (os : List ℚ) (p : Position) (e : PosEntry), p.OneSided → 0 ≤ e.sz →
      ∃ r, p.trade e = some r ∧ r.1.OneSided := by
    intro os p e hp he
    obtain ⟨p', hadd, hone, -⟩ := Position.addToPosition_spec hp he
    exact ⟨_, Option.map_eq_some_iff.mpr ⟨p', hadd, rfl⟩, hone⟩
  obtain ⟨p, out, hrun, -⟩ := exists_run_induction (I := fun _ p => Position.OneSided p)
    oneSided_new hstep (allSteps_of_forall hsz _)
  exact ⟨p, out, hrun⟩

/-- **The bookkeeping identity.**  After any trades the open entries are on one side, the total
    size is what was bought less what was sold, and realized and unrealized profit at any price
    add up to the cash moved and the value held.  Where no trade has a negative size nothing
    aborts on the way. -/
theorem position_identity (trades : List PosEntry) :
    (∀ p out, run Position.trade {} trades = some (p, out) →
      (∃ side, ∀ pe ∈ p.openPositions, pe.tradeType = side) ∧
      (∀ t, p.totalSize = some t → t = traded .buy trades - traded .sel trades) ∧
      ∀ x u, p.unrealPnl x x = some u →
        p.realizedPnl + u =
          cashFlow trades + (traded .buy trades - traded .sel trades : ℤ) * x) ∧
    ((∀ e ∈ trades, 0 ≤ e.sz) →
      ∃ p out, run Position.trade {} trades = some (p, out) ∧ (∃ t, p.totalSize = some t) ∧
        ∀ x, ∃ u, p.unrealPnl x x = some u) := by
  constructor
  · intro p out hrun
    have hp := run_balanced hrun
    refine ⟨hp.side, fun t ht => ?_, fun x u hu => ?_⟩
    · rw [sizeFrom_eq_net ht, hp.size, net_eq_traded]
    · rw [unrealFrom_eq_mark hu, hp.value, net_eq_traded]
  · intro hsz
    obtain ⟨p, out, hrun⟩ := exists_run_trade hsz
    have hp := run_balanced hrun
    obtain ⟨side, hside⟩ := hp.side
    have hnn := hp.nonneg hsz
    have hone : p.OneSided := ⟨side, fun pe hpe => ⟨hside pe hpe, hnn pe hpe⟩⟩
    exact ⟨p, out, hrun, ⟨_, Position.totalSize_oneSided hone⟩,
      fun x => exists_unrealFrom x x hnn⟩

end Values

end KasparHft.Pos
