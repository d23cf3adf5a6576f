import KasparHft.PositionFifo
import KasparHft.Som
import Mathlib.Algebra.Order.Round
import Mathlib.Data.Rat.Floor

/-!
# Rolling a position into the next contract

`Position::do_swap` closes what is open at the price of the old contract and opens the quantity
that corresponds to it at the price of the new one.  It hands the signed total size on as the size
of the closing trade: a long position is rolled as it should be, a short one trips the assertion on
the size of a trade.
-/

namespace KasparHft.Pos

open Machine

/-! ### The code -/

/-- `do_swap`; the new quantity is rounded by adding a half and dropping the fraction. -/
def Position.doSwap (p : Position) (s : Swap) : Option Position :=
  match p.totalSize with
  | none => none
  | some currPos =>
      if currPos = 0 then some p
      else
        match p.openPositions with
        -- the front of an empty list; its total size is zero
        | [] => none
        | front :: _ =>
            let side := front.tradeType
            match p.addToPosition ⟨side.other, s.oldPrice, currPos⟩ with
            | none => none
            | some p =>
                let newPos := Som.toInt (currPos * s.newSize / s.oldSize + 1 / 2)
                p.addToPosition ⟨side, s.newPrice, newPos⟩

/-! ### What a roll should do -/

/-- All open quantity was closed at the old price, and the quantity that corresponds to it is open
    on the same side at the new one. -/
structure RollsOver (p p' : Position) (s : Swap) : Prop where
  opened : ∃ side, (∀ pe ∈ p.openPositions, pe.tradeType = side) ∧
    p'.openPositions =
      [⟨side, s.newPrice, round ((|net p.openPositions| * s.newSize : ℚ) / s.oldSize)⟩]
  realized : p'.realizedPnl = p.realizedPnl + mark s.oldPrice p.openPositions

/-- A roll leaves a flat position and rolls any other. -/
def KeepsSide (p : Position) (s : Swap) : Prop :=
  (net p.openPositions = 0 → p.doSwap s = some p) ∧
    (net p.openPositions ≠ 0 → ∃ p', p.doSwap s = some p' ∧ RollsOver p p' s)

/-! ### Closing everything -/

section Closing

variable {p : Position} {pes r : List PosEntry} {e : PosEntry} {side : Side} {pnl : ℚ}

/-- Entries of positive size are left by closing out, and by trading, with positive sizes. -/
theorem closeOutPositions_pos (hside : ∀ pe ∈ pes, pe.tradeType = side)
    (he : e.tradeType ≠ side) (hpos : ∀ pe ∈ pes, 0 < pe.sz)
    (h : closeOutPositions pes e = some (r, pnl)) : ∀ pe ∈ r, 0 < pe.sz := by
  induction pes generalizing e r pnl with
  | nil => cases h
  | cons i rest ih =>
      obtain ⟨hi, hrest⟩ := List.forall_mem_cons.mp hside
      obtain ⟨-, hposrest⟩ := List.forall_mem_cons.mp hpos
      obtain ⟨-, hcloses⟩ := closeOutPositions_cons (by rw [hi]; exact he.symm) h
      cases hcloses with
      | part hlt => exact List.forall_mem_cons.mpr ⟨by dsimp only; omega, hposrest⟩
      | whole heq => exact hposrest
      | turns hlt hlast => exact List.forall_mem_singleton.mpr (by dsimp only; omega)
      | goesOn hlt hmore hrec =>
          exact ih (e := { e with sz := e.sz - i.sz }) hrest he hposrest hrec

theorem addToPosition_pos {p' : Position}
    (hside : ∃ side, ∀ pe ∈ p.openPositions, pe.tradeType = side)
    (hpos : ∀ pe ∈ p.openPositions, 0 < pe.sz) (he : 0 < e.sz)
    (h : p.addToPosition e = some p') : ∀ pe ∈ p'.openPositions, 0 < pe.sz := by
  obtain ⟨side, hside⟩ := hside
  rcases addToPosition_cases h with ⟨-, hopen, -⟩ | ⟨front, rest, r, pnl, hps, hne, hclose, hopen, -⟩
  · rw [hopen]
    exact List.forall_mem_cons.mpr ⟨he, hpos⟩
  · have hfront : front.tradeType = side := hside front (by rw [hps]; exact List.mem_cons_self)
    rw [hopen]
    exact closeOutPositions_pos hside (by rwa [← hfront]) hpos hclose

theorem units_pos (hne : pes ≠ []) (hpos : ∀ pe ∈ pes, 0 < pe.sz) : 0 < units pes := by
  cases pes with
  | nil => exact absurd rfl hne
  | cons i rest =>
      obtain ⟨hi, hrest⟩ := List.forall_mem_cons.mp hpos
      have := units_nonneg fun pe hpe => (hrest pe hpe).le
      rw [units_cons]
      omega

/-- A trade of all that is open closes every entry at its price. -/
theorem closeOutPositions_all (hne : pes ≠ [])
    (hside : ∀ pe ∈ pes, pe.tradeType = side) (hpos : ∀ pe ∈ pes, 0 < pe.sz)
    (he : e.tradeType ≠ side) (hsz : e.sz = units pes) :
    closeOutPositions pes e = some ([], mark e.tradePrice pes) := by
  induction pes generalizing e with
  | nil => exact absurd rfl hne
  | cons i rest ih =>
      obtain ⟨hi, hrest⟩ := List.forall_mem_cons.mp hside
      obtain ⟨hipos, hposrest⟩ := List.forall_mem_cons.mp hpos
      rw [units_cons] at hsz
      have hother : i.tradeType ≠ e.tradeType := by
        rw [hi]
        exact he.symm
      have hunits := units_nonneg fun pe hpe => (hposrest pe hpe).le
      have hnn : ¬ (i.sz < 0 ∨ e.sz < 0) := by omega
      have hpart : ¬ e.sz < i.sz := by omega
      unfold closeOutPositions
      rw [if_neg hnn, calcRealizedPnl_eq hother]
      dsimp only
      rw [if_neg hpart]
      by_cases hlast : rest = []
      · subst hlast
        rw [units_nil, add_zero] at hsz
        have hwhole : ¬ i.sz < e.sz := by omega
        rw [if_pos hsz.symm, if_neg hwhole, mark_cons, mark_nil, add_zero, hsz]
      · have hmore := units_pos hlast hposrest
        have hgt : i.sz < e.sz := by omega
        rw [if_neg hgt.ne, if_pos hgt, if_neg fun hnil => hlast (List.isEmpty_iff.mp hnil),
          ih (e := { e with sz := e.sz - i.sz }) hlast hrest hposrest he (by dsimp only; omega),
          mark_cons]
        rfl

end Closing

/-! ### Rolling -/

section Rolling

variable {p : Position} {s : Swap} {side : Side}

theorem toInt_of_nonneg {q : ℚ} (hq : 0 ≤ q) : Som.toInt q = ⌊q⌋ := by
  rw [Som.toInt, Int.tdiv_eq_ediv_of_nonneg (Rat.num_nonneg.mpr hq)]
  exact Rat.floor_def'.symm

/-- Where there is something open, a roll trades twice. -/
theorem doSwap_eq {front : PosEntry} {rest : List PosEntry} (hone : p.OneSided)
    (hps : p.openPositions = front :: rest) (hopen : net p.openPositions ≠ 0) :
    p.doSwap s =
      match p.addToPosition ⟨front.tradeType.other, s.oldPrice, net p.openPositions⟩ with
      | none => none
      | some p' => p'.addToPosition ⟨front.tradeType, s.newPrice,
          Som.toInt (net p.openPositions * s.newSize / s.oldSize + 1 / 2)⟩ := by
  unfold Position.doSwap
  rw [Position.totalSize_oneSided hone]
  dsimp only
  rw [if_neg hopen]
  simp only [hps]

/-- A long position is rolled. -/
theorem doSwap_long (hside : ∀ pe ∈ p.openPositions, pe.tradeType = .buy ∧ 0 < pe.sz)
    (hlong : 0 < net p.openPositions) (hold : 0 < s.oldSize) (hnew : 0 < s.newSize) :
    ∃ p', p.doSwap s = some p' ∧ RollsOver p p' s := by
  have hbuy : ∀ pe ∈ p.openPositions, pe.tradeType = .buy := fun pe hpe => (hside pe hpe).1
  have hone : p.OneSided := ⟨.buy, fun pe hpe => ⟨(hside pe hpe).1, (hside pe hpe).2.le⟩⟩
  obtain ⟨front, rest, hps⟩ : ∃ front rest, p.openPositions = front :: rest := by
    refine List.exists_cons_of_ne_nil fun hnil => ?_
    rw [hnil, net_nil] at hlong
    exact lt_irrefl 0 hlong
  have hfront : front.tradeType = .buy := hbuy front (by rw [hps]; exact List.mem_cons_self)
  -- the closing trade takes every entry
  obtain ⟨p₁, hclose⟩ := exists_addToPosition hone
    (e := ⟨Side.sel, s.oldPrice, net p.openPositions⟩) hlong.le
  have hempty : p₁.openPositions = [] ∧
      p₁.realizedPnl = p.realizedPnl + mark s.oldPrice p.openPositions := by
    have hall := closeOutPositions_all (e := ⟨Side.sel, s.oldPrice, net p.openPositions⟩)
      (by rw [hps]; exact List.cons_ne_nil front rest) hbuy (fun pe hpe => (hside pe hpe).2) nofun
      (by rw [net_eq_units hbuy, Side.sign_buy, one_mul])
    rcases addToPosition_cases hclose with ⟨hsame, -, -⟩ | ⟨_, _, r, pnl, -, -, hr, hopen, hreal⟩
    · rw [hps] at hsame
      exact absurd ((hsame front rfl).symm.trans hfront) nofun
    · cases hall.symm.trans hr
      exact ⟨hopen, hreal⟩
  -- the opening trade has the quantity rounded to the nearest
  have hq : (0 : ℚ) ≤ net p.openPositions * s.newSize / s.oldSize := by positivity
  have hround : Som.toInt (net p.openPositions * s.newSize / s.oldSize + 1 / 2) =
      round ((|net p.openPositions| * s.newSize : ℚ) / s.oldSize) := by
    rw [toInt_of_nonneg (by positivity), abs_of_pos hlong, round_eq]
  obtain ⟨p₂, hopen⟩ := exists_addToPosition (p := p₁)
    ⟨.buy, by rw [hempty.1]; exact fun pe hpe => by cases hpe⟩
    (e := ⟨Side.buy, s.newPrice, Som.toInt (net p.openPositions * s.newSize / s.oldSize + 1 / 2)⟩)
    (by rw [toInt_of_nonneg (by positivity)]; exact Int.floor_nonneg.mpr (by positivity))
  refine ⟨p₂, ?_, ⟨.buy, hbuy, ?_⟩, ?_⟩
  · rw [doSwap_eq hone hps hlong.ne', hfront, Side.other, hclose]
    exact hopen
  · rcases addToPosition_cases hopen with ⟨-, hps₂, -⟩ | ⟨_, _, _, _, hps₁, -⟩
    · rw [hps₂, hempty.1, hround]
    · rw [hempty.1] at hps₁
      cases hps₁
  · rcases addToPosition_cases hopen with ⟨-, -, hreal⟩ | ⟨_, _, _, _, hps₁, -⟩
    · rw [hreal, hempty.2]
    · rw [hempty.1] at hps₁
      cases hps₁

/-- A short one trips the assertion on the size of the closing trade. -/
theorem doSwap_short (hside : ∀ pe ∈ p.openPositions, pe.tradeType = .sel ∧ 0 < pe.sz)
    (hshort : net p.openPositions < 0) : p.doSwap s = none := by
  have hone : p.OneSided := ⟨.sel, fun pe hpe => ⟨(hside pe hpe).1, (hside pe hpe).2.le⟩⟩
  obtain ⟨front, rest, hps⟩ : ∃ front rest, p.openPositions = front :: rest := by
    refine List.exists_cons_of_ne_nil fun hnil => ?_
    rw [hnil, net_nil] at hshort
    exact lt_irrefl 0 hshort
  have hfront : front.tradeType = .sel :=
    (hside front (by rw [hps]; exact List.mem_cons_self)).1
  have hclose : p.addToPosition ⟨.buy, s.oldPrice, net p.openPositions⟩ = none := by
    rcases hadd : p.addToPosition ⟨.buy, s.oldPrice, net p.openPositions⟩ with _ | p'
    · rfl
    · rcases addToPosition_cases hadd with ⟨hsame, -, -⟩ | ⟨_, _, r, pnl, -, -, hr, -, -⟩
      · rw [hps] at hsame
        exact absurd ((hsame front rfl).symm.trans hfront) nofun
      · rw [hps] at hr hshort
        obtain ⟨⟨-, hsz⟩, -⟩ := closeOutPositions_cons (by rw [hfront]; exact nofun) hr
        exact absurd hsz (not_le.mpr hshort)
  rw [doSwap_eq hone hps hshort.ne, hfront, Side.other, hclose]

end Rolling

/-! ### Reached positions -/

theorem run_pos {trades : List PosEntry} {p : Position} {out : List ℚ}
    (hsz : ∀ e ∈ trades, 0 < e.sz) (hrun : run Position.trade {} trades = some (p, out)) :
    ∀ pe ∈ p.openPositions, 0 < pe.sz := by
  refine (run_induction (I := fun _ _ p => (∃ side, ∀ pe ∈ Position.openPositions p,
    pe.tradeType = side) ∧ ∀ pe ∈ Position.openPositions p, 0 < pe.sz)
    ⟨⟨.buy, fun pe hpe => by cases hpe⟩, fun pe hpe => by cases hpe⟩ ?_
    (allSteps_of_forall hsz _) hrun).2
  intro _ _ p e p' o ⟨hside, hpos⟩ he htrade
  obtain ⟨q, hadd, heq⟩ := Option.map_eq_some_iff.mp htrade
  cases heq
  exact ⟨(addToPosition_side hside hadd).1, addToPosition_pos hside hpos he hadd⟩

/-- **A roll keeps the side** of a position that trades of positive sizes reach exactly when the
    position is not short. -/
theorem swap_keeps_side_iff (trades : List PosEntry) (hsz : ∀ e ∈ trades, 0 < e.sz) (s : Swap)
    (hold : 0 < s.oldSize) (hnew : 0 < s.newSize) :
    ∃ p out, run Position.trade {} trades = some (p, out) ∧
      (KeepsSide p s ↔ 0 ≤ net p.openPositions) := by
  obtain ⟨p, out, hrun⟩ := exists_run_trade fun e he => (hsz e he).le
  obtain ⟨side, hside⟩ := (run_balanced hrun).side
  have hpos := run_pos hsz hrun
  have hboth : ∀ pe ∈ p.openPositions, pe.tradeType = side ∧ 0 < pe.sz := fun pe hpe =>
    ⟨hside pe hpe, hpos pe hpe⟩
  have hunits := units_nonneg fun pe hpe => (hpos pe hpe).le
  have hnet := net_eq_units hside
  refine ⟨p, out, hrun, fun hkeeps => ?_, fun hlong => ⟨fun hflat => ?_, fun hopen => ?_⟩⟩
  · by_contra hshort
    rw [not_le] at hshort
    obtain ⟨p', hswap, -⟩ := hkeeps.2 hshort.ne
    cases side with
    | buy =>
        rw [hnet, Side.sign_buy] at hshort
        omega
    | sel => cases (doSwap_short hboth hshort).symm.trans hswap
  · unfold Position.doSwap
    rw [Position.totalSize_oneSided ⟨side, fun pe hpe => ⟨hside pe hpe, (hpos pe hpe).le⟩⟩, hflat]
    rfl
  · cases side with
    | buy => exact doSwap_long hboth (lt_of_le_of_ne hlong hopen.symm) hold hnew
    | sel =>
        rw [hnet, Side.sign_sel] at hlong hopen
        omega

/-- Three long are rolled from a contract of size 2 to one of size 1. -/
theorem swap_keeps_side_long :
    ∃ p out, run Position.trade {} [⟨.buy, 100, 2⟩, ⟨.buy, 101, 1⟩] = some (p, out) ∧
      net p.openPositions = 3 ∧ KeepsSide p ⟨102, 2, 50, 1⟩ := by
  obtain ⟨p, out, hrun, hiff⟩ := swap_keeps_side_iff [⟨.buy, 100, 2⟩, ⟨.buy, 101, 1⟩]
    (by decide) ⟨102, 2, 50, 1⟩ (by decide) (by decide)
  have hrunNet : _ = some (net p.openPositions) :=
    congrArg (Option.map fun r => net r.1.openPositions) hrun
  have hnet : net p.openPositions = 3 :=
    Option.some_inj.mp (hrunNet.symm.trans (by decide +kernel))
  exact ⟨p, out, hrun, hnet, hiff.mpr (by rw [hnet]; decide)⟩

/-- One short at 10 is not rolled: the process aborts. -/
theorem swap_aborts_short :
    ∃ p out, run Position.trade {} [⟨.sel, 10, 1⟩] = some (p, out) ∧
      p.doSwap ⟨10, 1, 11, 1⟩ = none ∧ ¬ KeepsSide p ⟨10, 1, 11, 1⟩ := by
  refine ⟨_, _, rfl, by decide +kernel, fun hkeeps => ?_⟩
  obtain ⟨p', hswap, -⟩ := hkeeps.2 (by decide +kernel)
  exact absurd (hswap.symm.trans (by decide +kernel : _ = none)) nofun

end KasparHft.Pos
