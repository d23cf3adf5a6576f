import KasparHft.FillSlateRules

/-!
# The aggressor of a transaction

The decision of a transaction is a side, not an order.  When it is taken, the side has one order;
it stays the only one on the side unless a later trade record names a further order there, which
then goes out as the aggressor too, since the decision is fixed.
-/

namespace KasparHft.FillSlate

open Machine

variable {Px Pl : Type} {s s' : Slate Px Pl} {samePx : Px → Px → Bool} {o : List (Released Px Pl)}

/-- A trade record of the open transaction names its order on the side that the earlier records of
    the order name, and no new order on the side that is decided. -/
def OneIncoming (s : Slate Px Pl) (u : Use Px Pl) : Prop :=
  match u.trade with
  | none => True
  | some t =>
      s.txOpen = true → t.tx = s.tx →
        (∀ f ∈ s.fills, f.oid = t.oid → f.side = t.side) ∧
        (s.aside = .side t.side → ∃ f ∈ s.fills, f.oid = t.oid)

instance decidableOneIncoming (s : Slate Px Pl) (u : Use Px Pl) : Decidable (OneIncoming s u) :=
  match u with
  | .clear => instDecidableTrue
  | .call (.advance _) => instDecidableTrue
  | .call (.onBook _ _ _ _) => instDecidableTrue
  | .call .flush => instDecidableTrue
  | .call (.onTrade t) => inferInstanceAs (Decidable (s.txOpen = true → t.tx = s.tx →
      (∀ f ∈ s.fills, f.oid = t.oid → f.side = t.side) ∧
      (s.aside = .side t.side → ∃ f ∈ s.fills, f.oid = t.oid)))

/-- The fills of a transaction that went out as the aggressor's are of one order. -/
def SingleAggressor (tx : ℕ) (o : List (Released Px Pl)) : Prop :=
  ∀ r₁ ∈ o, ∀ r₂ ∈ o, r₁.fill.tx = tx → r₂.fill.tx = tx → r₁.role = .aggressor →
    r₂.role = .aggressor → r₁.fill.oid = r₂.fill.oid

instance decidableSingleAggressor (tx : ℕ) (o : List (Released Px Pl)) :
    Decidable (SingleAggressor tx o) :=
  inferInstanceAs (Decidable (∀ r₁ ∈ o, ∀ r₂ ∈ o, r₁.fill.tx = tx → r₂.fill.tx = tx →
    r₁.role = .aggressor → r₂.role = .aggressor → r₁.fill.oid = r₂.fill.oid))

/-- Every order is listed on one side, and only one on the side that is decided. -/
structure Lone (s : Slate Px Pl) : Prop where
  sides : ∀ t ∈ s.trades, ∀ t' ∈ s.trades, t.oid = t'.oid → t.side = t'.side
  lone : ∀ a, s.aside = .side a → ∀ t ∈ s.trades, ∀ t' ∈ s.trades, t.side = a → t'.side = a →
    t.oid = t'.oid

/-- A decision is taken for a side with one order. -/
theorem orders_of_computeSide {a : Side} (h : s.computeSide = .side a) : s.orders a = 1 := by
  unfold Slate.computeSide at h
  split at h
  next => cases h
  next hsome =>
    split at h
    next => cases h
    next hfew =>
      split at h
      next hbuy =>
        cases h
        exact hbuy.1
      next hbuy =>
        split at h
        next hsel =>
          cases h
          exact hsel.1
        next hsel =>
          have hone : s.nb = 1 ∧ s.ns = 1 := by omega
          cases a
          · exact hone.1
          · exact hone.2

/-- Trades on the side of a verdict are of one order. -/
theorem Lone.of_verdict (hs : Lone s) (hcounted : s.Counted) {a : Side} (h : s.verdict = .side a)
    {t t' : Trade Px Pl} (ht : t ∈ s.trades) (ht' : t' ∈ s.trades) (hside : t.side = a)
    (hside' : t'.side = a) : t.oid = t'.oid := by
  unfold Slate.verdict at h
  split at h
  next =>
    have hone : (listedOn s.trades a).length = 1 := (hcounted.orders a).symm.trans
      (orders_of_computeSide h)
    obtain ⟨b, hb⟩ := List.length_eq_one_iff.mp hone
    -- the first listing of an order is on the order's side
    have honly : ∀ x ∈ s.trades, x.side = a → x.oid = b.oid := by
      intro x hx hxside
      obtain ⟨y, hy, hkey⟩ := @exists_mem_firsts _ _ _ Trade.oid _ _ hx
      have hyside := (hs.sides y (mem_of_mem_firsts hy) x hx hkey).trans hxside
      have hmem := mem_listedOn.mpr ⟨hy, hyside⟩
      rw [hb] at hmem
      rw [← hkey, List.mem_singleton.mp hmem]
    exact (honly t ht hside).trans (honly t' ht' hside').symm
  next => exact hs.lone a h t ht t' ht' hside hside'

/-! ### Each use -/

theorem Lone.of_eq (hs : Lone s) (htrades : s'.trades = s.trades) (haside : s'.aside = s.aside) :
    Lone s' := by
  constructor
  · rw [htrades]
    exact hs.sides
  · rw [htrades, haside]
    exact hs.lone

/-- A trade record of an order that may come. -/
theorem onTrade_lone (hs : Lone s) {t : Trade Px Pl} (htrades : s'.trades = s.trades ++ [t])
    (haside : s'.aside = s.aside)
    (hside : ∀ f ∈ s.fills, f.oid = t.oid → f.side = t.side)
    (hlisted : s.aside = .side t.side → ∃ f ∈ s.fills, f.oid = t.oid) : Lone s' := by
  have hmem : ∀ x ∈ s'.trades, x ∈ s.trades ∨ x = t := by
    intro x hx
    rw [htrades] at hx
    exact (List.mem_append.mp hx).imp_right List.mem_singleton.mp
  have hnew : ∀ x ∈ s.trades, x.oid = t.oid → x.side = t.side := by
    intro x hx hoid
    obtain ⟨f, hf, rfl⟩ := List.mem_map.mp hx
    exact hside f hf hoid
  constructor
  · intro x hx y hy hoid
    rcases hmem x hx with hx | rfl
    · rcases hmem y hy with hy | rfl
      · exact hs.sides x hx y hy hoid
      · exact hnew x hx hoid
    · rcases hmem y hy with hy | rfl
      · exact (hnew y hy hoid.symm).symm
      · rfl
  · intro a ha
    rw [haside] at ha
    -- the order of the record is the one that is listed on the side
    have hlone : ∀ x ∈ s.trades, x.side = a → t.side = a → x.oid = t.oid := by
      intro x hx hxside htside
      obtain ⟨f, hf, hoid⟩ := hlisted (htside ▸ ha)
      have hf' : f.toTrade ∈ s.trades := List.mem_map_of_mem hf
      exact (hs.lone a ha x hx f.toTrade hf' hxside ((hside f hf hoid).trans htside)).trans hoid
    intro x hx y hy hxside hyside
    rcases hmem x hx with hx | rfl
    · rcases hmem y hy with hy | rfl
      · exact hs.lone a ha x hx y hy hxside hyside
      · exact hlone x hx hxside hyside
    · rcases hmem y hy with hy | rfl
      · exact (hlone y hy hyside hxside).symm
      · rfl

/-- A trade record of the open transaction is stored, and decides nothing. -/
theorem onTrade_stored {t : Trade Px Pl} (htx : t.tx = s.tx) :
    (s.onTrade t).1.trades = s.trades ++ [t] ∧ (s.onTrade t).1.aside = s.aside := by
  have hadvance : s.advance t.tx = (s, []) := if_neg fun h => h.2 htx
  have hrel := releaseIfDecided_as ((s.pushFill t).indexFill t s.fills.length) t.oid s.fills.length
  have haside := (indexFill_aside (s.pushFill t) t s.fills.length).1
  unfold Slate.onTrade
  rw [hadvance]
  exact ⟨hrel.trades.trans (indexFill_trades s t _),
    (of_facts Slate.aside hrel.facts fun _ => rfl).trans haside⟩

/-- A book record of the open transaction may decide, for a side with one order. -/
theorem onBook_lone (hs : s.Exact) (hlone : Lone s) (hopen : s.txOpen = true) (oid action : ℕ)
    (px : Px) : Lone (s.onBook samePx oid s.tx action px).1 := by
  rcases onBook_cases samePx hopen rfl oid action px with ⟨heq, -⟩ | ⟨o, -, -, -, heq⟩
  · rw [heq]
    exact hlone
  · obtain ⟨hfills, -, -, haside⟩ := noted_frame samePx s oid action px o
    have hnoted : Lone (s.noted samePx oid action px o) :=
      hlone.of_eq (congrArg (List.map Fill.toTrade) hfills) haside
    have hcounted := noted_counted samePx hs.counted oid action px o
    have hdecide := decide_as (s.noted samePx oid action px o) { o with seen := true }
    rw [heq]
    have hsettle : Lone (s.noted samePx oid action px o).settle :=
      ⟨hnoted.sides, fun _ ha _ ht _ ht' => hnoted.of_verdict hcounted ha ht ht'⟩
    exact hsettle.of_eq hdecide.trades (of_facts Slate.aside hdecide.facts fun _ => rfl)

theorem call_lone (hs : s.Exact) (hlone : Lone s) (hopen : s.txOpen = true) {c : Call Px Pl}
    (hc : c.tx = some s.tx) (hone : OneIncoming s (.call c)) : Lone (s.call samePx c).1 := by
  cases c with
  | advance tx =>
      have hstay : s.advance tx = (s, []) := if_neg fun h => h.2 (Option.some.inj hc)
      change Lone (s.advance tx).1
      rw [hstay]
      exact hlone
  | onTrade t =>
      have htx := Option.some.inj hc
      obtain ⟨htrades, haside⟩ := onTrade_stored htx
      obtain ⟨hside, hlisted⟩ := hone hopen htx
      exact onTrade_lone hlone htrades haside hside hlisted
  | onBook oid tx action px =>
      cases Option.some.inj hc
      exact onBook_lone hs hlone hopen oid action px
  | flush => cases hc

/-- The first trade record of a transaction. -/
theorem first_lone {tx : ℕ} {c : Call Px Pl} (hs : s.Exact)
    (hother : ¬ (s.txOpen = true ∧ s.tx = tx)) (hc : c.tx = some tx)
    (hopen : (s.call samePx c).1.txOpen = true) : Lone (s.call samePx c).1 := by
  cases c with
  | advance tx' =>
      cases hc
      change (s.advance tx).1.txOpen = true at hopen
      rw [advance_closed hother] at hopen
      cases hopen
  | onTrade t =>
      cases hc
      have hrep : Represents samePx [t] [] (s.onTrade t).1 := first_trade hs hother
      have hunknown : (s.onTrade t).1.aside = .unknown := hrep.aside
      change Lone (s.onTrade t).1
      constructor
      · rw [hrep.trades]
        intro x hx y hy _
        rw [List.mem_singleton.mp hx, List.mem_singleton.mp hy]
      · intro a ha
        rw [hunknown] at ha
        cases ha
  | onBook oid tx' action px =>
      cases hc
      change (s.onBook samePx oid tx action px).1.txOpen = true at hopen
      rcases hbefore : s.txOpen with _ | _
      · rw [onBook_of_closed samePx hbefore, hbefore] at hopen
        cases hopen
      · rw [onBook_of_ne samePx hbefore fun heq => hother ⟨hbefore, heq.symm⟩,
          closeTx_txOpen] at hopen
        cases hopen
  | flush => cases hc

/-! ### Runs -/

theorem ASide.role_eq_aggressor {d : ASide} {sd : Side} :
    d.role sd = .aggressor ↔ d = .side sd := by
  cases d with
  | unknown => exact ⟨nofun, nofun⟩
  | none => exact ⟨nofun, nofun⟩
  | side a =>
      dsimp only [ASide.role]
      constructor
      · intro h
        split at h
        next heq => rw [heq]
        next => cases h
      · intro h
        cases h
        exact if_pos rfl

/-- What went out of a transaction as the aggressor's is of the side that is decided. -/
structure Aggressors (tx : ℕ) (o : List (Released Px Pl)) (s : Slate Px Pl) : Prop where
  exact : s.Exact
  lone : s.txOpen = true → s.tx = tx → Lone s
  out : ∀ r ∈ o, r.fill.tx = tx → r.role = .aggressor → (s.txOpen = true ∧ s.tx = tx) ∧
    s.aside = .side r.fill.side ∧ r.fill.toTrade ∈ s.trades

theorem use_aggressors (samePx : Px → Px → Bool) {tx : ℕ} {u : Use Px Pl}
    {os : List (Released Px Pl)}
    (hs : Aggressors tx os s) (hu : u.tx = some tx) (hone : OneIncoming s u) :
    Aggressors tx (os ++ (s.use samePx u).2) (s.use samePx u).1 := by
  have hexact := use_exact samePx hs.exact u
  cases u with
  | clear => cases hu
  | call c =>
      by_cases hopen : s.txOpen = true ∧ s.tx = tx
      · obtain ⟨hopen, rfl⟩ := hopen
        have hgoes : Goes s (s.call samePx c).1 (s.call samePx c).2 := call_goes hopen hu
        refine ⟨hexact, fun _ _ => call_lone hs.exact (hs.lone hopen rfl) hopen hu hone, ?_⟩
        intro r hr htx haggressor
        refine ⟨⟨hgoes.txOpen, hgoes.tx⟩, ?_⟩
        rcases List.mem_append.mp hr with hr | hr
        · obtain ⟨-, haside, hstored⟩ := hs.out r hr htx haggressor
          have hdecided : s.aside ≠ .unknown := by
            rw [haside]
            exact nofun
          exact ⟨(hgoes.fixed hdecided).trans haside, hgoes.grows.subset hstored⟩
        · exact ⟨ASide.role_eq_aggressor.mp ((hgoes.roles r hr).symm.trans haggressor),
            hgoes.stored r hr⟩
      · refine ⟨hexact, fun hopen' _ => first_lone hs.exact hopen hu hopen', ?_⟩
        intro r hr htx haggressor
        rcases List.mem_append.mp hr with hr | hr
        · exact absurd (hs.out r hr htx haggressor).1 hopen
        · obtain ⟨htrue, hstx⟩ := use_released_tx hs.exact.sound (.call c) r hr
          exact absurd ⟨htrue, hstx.symm.trans htx⟩ hopen

/-- What a transaction and the use after it release as the aggressor's is of the side of the
    verdict. -/
theorem aggressors_of_end (samePx : Px → Px → Bool) {tx : ℕ} {u : Use Px Pl}
    {os : List (Released Px Pl)}
    (hs : Aggressors tx os s) (hu : u.tx ≠ some tx) :
    ∀ r ∈ os ++ (s.use samePx u).2, r.fill.tx = tx → r.role = .aggressor →
      (s.txOpen = true ∧ s.tx = tx) ∧ s.verdict = .side r.fill.side ∧
        r.fill.toTrade ∈ s.trades := by
  intro r hr htx haggressor
  rcases List.mem_append.mp hr with hr | hr
  · obtain ⟨hopen, haside, hstored⟩ := hs.out r hr htx haggressor
    have hdecided : s.aside ≠ .unknown := by
      rw [haside]
      exact nofun
    have hverdict : s.verdict = s.aside := if_neg hdecided
    exact ⟨hopen, hverdict.trans haside, hstored⟩
  · obtain ⟨htrue, hstx⟩ := use_released_tx hs.exact.sound u r hr
    have hopen : s.tx = tx := hstx.symm.trans htx
    obtain ⟨hrole, hstored⟩ := closeTx_roles s r
      (use_ends hs.exact.sound (fun _ => hopen ▸ hu) r hr).2
    exact ⟨⟨htrue, hopen⟩, ASide.role_eq_aggressor.mp (hrole.symm.trans haggressor), hstored⟩

/-- **One aggressor.**  After any uses, let a transaction come in which every order is named on one
    side and, once a side is decided, no new order on it.  All its fills that go out as the
    aggressor's, with it or at the use after, which closes it, are of one order. -/
theorem one_aggressor {mode : Release} {before block : List (Use Px Pl)} {last : Use Px Pl}
    {tx : ℕ} {past : List (Released Px Pl)}
    (hbefore : run (useStep samePx) (.new mode) before = some (s, past))
    (hstart : ∀ u ∈ before.getLast?, u.tx ≠ some tx) (hblock : ∀ u ∈ block, u.tx = some tx)
    (hone : AllSteps (useStep samePx) OneIncoming s block) (hlast : last.tx ≠ some tx)
    (hrun : run (useStep samePx) s (block ++ [last]) = some (s', o)) : SingleAggressor tx o := by
  have hother := not_open_of_start hbefore hstart
  obtain ⟨m, os, ol, hfirst, hend, rfl⟩ := run_concat.mp hrun
  have hm : Aggressors tx os m := by
    refine run_induction (I := fun _ os m => Aggressors tx os m)
      (P := fun s u => u.tx = some tx ∧ OneIncoming s u) ?_ ?_ ?_ hfirst
    · exact ⟨exact_of_run (exact_new mode) hbefore, fun hopen htx => absurd ⟨hopen, htx⟩ hother,
        fun r hr => (List.not_mem_nil hr).elim⟩
    · intro _ os m u m' o' hm ⟨hu, hone⟩ hstep
      have hnext := use_aggressors samePx hm hu hone
      rw [useStep_eq_some hstep] at hnext
      exact hnext
    · exact allSteps_and (allSteps_of_forall hblock s) hone
  have hout := aggressors_of_end samePx hm hlast
  rw [useStep_eq_some hend] at hout
  intro r₁ hr₁ r₂ hr₂ htx₁ htx₂ hrole₁ hrole₂
  obtain ⟨⟨hopen, htx⟩, hverdict₁, hstored₁⟩ := hout r₁ hr₁ htx₁ hrole₁
  obtain ⟨-, hverdict₂, hstored₂⟩ := hout r₂ hr₂ htx₂ hrole₂
  have hside : r₂.fill.side = r₁.fill.side := ASide.side.inj (hverdict₂.symm.trans hverdict₁)
  exact (hm.lone hopen htx).of_verdict hm.exact.counted hverdict₁ hstored₁ hstored₂ rfl hside

/-- Late trade records of the aggressor, and of another resting order. -/
def lateResting : List (Use ℤ Unit) :=
  [tradeOf 1 9 .buy true, tradeOf 2 9 .sel true, recordOf 2 9 1 10, tradeOf 1 9 .buy true,
    tradeOf 3 9 .sel true, recordOf 1 9 1 12]

theorem late_resting_single :
    (run (useStep (· == ·)) (.new .atOwnRecord) (lateResting ++ [.call .flush])).map
        (fun r => r.2.map fun r => (r.fill.oid, r.role)) =
      some [(2, .resting), (1, .aggressor), (1, .aggressor), (3, .resting)] ∧
    ∀ s o, run (useStep (· == ·)) (.new .atOwnRecord) (lateResting ++ [.call .flush]) =
      some (s, o) → SingleAggressor 9 o := by
  have hnone : run (useStep (· == ·)) (.new .atOwnRecord) ([] : List (Use ℤ Unit)) =
      some (.new .atOwnRecord, []) := rfl
  have hblock : ∀ u ∈ lateResting, u.tx = some 9 := by decide
  have hone : AllSteps (useStep (· == ·)) OneIncoming (.new .atOwnRecord) lateResting := by
    decide +kernel
  have hlast : (.call .flush : Use ℤ Unit).tx ≠ some 9 := nofun
  exact ⟨by decide +kernel, fun s o hrun => one_aggressor hnone nofun hblock hone hlast hrun⟩

/-! ### Several aggressors -/

/-- An order that is named on both sides, and one more on each. -/
def twoSided : List (Use ℤ Unit) :=
  [tradeOf 1 9 .buy true, tradeOf 2 9 .sel true, tradeOf 3 9 .sel true, tradeOf 2 9 .buy true]

theorem several_aggressors :
    ¬ (∀ s o, run (useStep (· == ·)) (.new .atDecision) (lateBuys ++ [.call .flush]) =
      some (s, o) → SingleAggressor 9 o) ∧
    ¬ ∀ s o, run (useStep (· == ·)) (.new .atOwnRecord) (twoSided ++ [.call .flush]) =
      some (s, o) → SingleAggressor 9 o := by
  have hlate : (run (useStep (· == ·)) (.new .atDecision) (lateBuys ++ [.call .flush])).map
      (fun r => decide (SingleAggressor 9 r.2)) = some false := by decide +kernel
  have htwo : (run (useStep (· == ·)) (.new .atOwnRecord) (twoSided ++ [.call .flush])).map
      (fun r => decide (SingleAggressor 9 r.2)) = some false := by decide +kernel
  constructor
  · obtain ⟨⟨s, o⟩, hrun, hnot⟩ := Option.map_eq_some_iff.mp hlate
    exact fun h => of_decide_eq_false hnot (h s o hrun)
  · obtain ⟨⟨s, o⟩, hrun, hnot⟩ := Option.map_eq_some_iff.mp htwo
    exact fun h => of_decide_eq_false hnot (h s o hrun)

end KasparHft.FillSlate
