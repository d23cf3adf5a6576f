import KasparHft.MarketSide
import Mathlib.Algebra.Order.Field.Rat
import Mathlib.Algebra.BigOperators.Group.List.Basic
import Mathlib.Tactic.Ring

/-!
# Positions

`frame/pos/Position.hpp`: a position is a list of open entries, all on one side, the
newest in front.  A trade on the same side is pushed in front; a trade on the other
side closes entries from the front and turns the position round when it is larger.

Prices are `double` in the source and rationals here; sizes are `int` there and
integers here.  `none` is an abort (a failed `ASSERT` or `SNGH`).
-/

namespace KasparHft.Pos

/-- `Position::PosEntry`: an actual trade. -/
structure PosEntry where
  tradeType : Side
  tradePrice : ℚ
  sz : ℤ
deriving DecidableEq, Repr

/-- `Position::Swap`. -/
structure Swap where
  oldPrice : ℚ
  oldSize : ℤ
  newPrice : ℚ
  newSize : ℤ

/-- `struct Position`; the front of `openPositions` is the latest entry. -/
structure Position where
  openPositions : List PosEntry := []
  realizedPnl : ℚ := 0
  nbSellShares : ℤ := 0
  nbBuyShares : ℤ := 0
  lastTradePriceVal : ℚ := -1
  nbTrades : ℤ := 0
deriving DecidableEq, Repr

/-! ### Operations -/

/-- The loop of `totalSize`, which asserts that the sign never flips. -/
def sizeFrom : ℤ → List PosEntry → Option ℤ
  | _, [] => some 0
  | sign, pe :: pes =>
      if pe.sz < 0 then none
      else
        match pe.tradeType with
        | .sel => if 0 < sign then none else (sizeFrom (-1) pes).map (-pe.sz + ·)
        | .buy => if sign < 0 then none else (sizeFrom 1 pes).map (pe.sz + ·)

/-- `totalSize`: negative if short. -/
def Position.totalSize (p : Position) : Option ℤ :=
  sizeFrom 0 p.openPositions

/-- `calcRealizedPnl`. -/
def calcRealizedPnl (firstTrade secondTrade : PosEntry) : Option ℚ :=
  if firstTrade.tradeType = secondTrade.tradeType then none
  else
    let sz := if firstTrade.sz < secondTrade.sz then firstTrade.sz else secondTrade.sz
    let pdiff := secondTrade.tradePrice - firstTrade.tradePrice
    match firstTrade.tradeType with
    | .buy => some (sz * pdiff)
    | .sel => some (sz * -pdiff)

/-- `closeOutPositions`: close entries from the front; what is left over once the list is
    empty opens a position on the other side. -/
def closeOutPositions : List PosEntry → PosEntry → Option (List PosEntry × ℚ)
  | [], _ => none
  | i :: rest, e =>
      if i.sz < 0 ∨ e.sz < 0 then none
      else
        match calcRealizedPnl i e with
        | none => none
        | some pnl =>
            if e.sz < i.sz then some ({ i with sz := i.sz - e.sz } :: rest, pnl)
            else if i.sz = e.sz then some (rest, pnl)
            else
              let e := { e with sz := e.sz - i.sz }
              if rest.isEmpty then some ([e], pnl)
              else (closeOutPositions rest e).map fun r => (r.1, pnl + r.2)

/-- `addToPosition`. -/
def Position.addToPosition (p : Position) (e : PosEntry) : Option Position :=
  let p : Position := match e.tradeType with
    | .buy => { p with nbBuyShares := p.nbBuyShares + e.sz }
    | .sel => { p with nbSellShares := p.nbSellShares + e.sz }
  let p := { p with nbTrades := p.nbTrades + 1, lastTradePriceVal := e.tradePrice }
  match p.openPositions with
  | [] => some { p with openPositions := [e] }
  | front :: rest =>
      if e.tradeType = front.tradeType then some { p with openPositions := e :: front :: rest }
      else
        (closeOutPositions (front :: rest) e).map fun r =>
          { p with openPositions := r.1, realizedPnl := p.realizedPnl + r.2 }

/-- The loop of `unrealPnl`. -/
def unrealFrom (bid off : ℚ) : List PosEntry → Option ℚ
  | [] => some 0
  | pe :: pes =>
      if pe.sz < 0 then none
      else
        match pe.tradeType with
        | .sel => (unrealFrom bid off pes).map ((pe.tradePrice - off) * pe.sz + ·)
        | .buy => (unrealFrom bid off pes).map ((bid - pe.tradePrice) * pe.sz + ·)

/-- `unrealPnl`: the open entries marked at the bid or the offer. -/
def Position.unrealPnl (p : Position) (bid off : ℚ) : Option ℚ :=
  unrealFrom bid off p.openPositions

/-! ### One-sided positions -/

/-- All open entries are on one side and none has a negative size. -/
def Position.OneSided (p : Position) : Prop :=
  ∃ side : Side, ∀ pe ∈ p.openPositions, pe.tradeType = side ∧ 0 ≤ pe.sz

/-- The signed size of a list of entries. -/
def net (pes : List PosEntry) : ℤ :=
  (pes.map fun pe => pe.tradeType.sign * pe.sz).sum

@[simp] theorem net_nil : net [] = 0 := rfl

@[simp] theorem net_cons (pe : PosEntry) (pes : List PosEntry) :
    net (pe :: pes) = pe.tradeType.sign * pe.sz + net pes := by
  simp [net]

theorem oneSided_new : ({} : Position).OneSided :=
  ⟨.buy, fun _ hpe => by cases hpe⟩

/-- On entries of one side the loop of `totalSize` never trips its assertions. -/
theorem sizeFrom_oneSided {side : Side} {pes : List PosEntry}
    (h : ∀ pe ∈ pes, pe.tradeType = side ∧ 0 ≤ pe.sz) :
    sizeFrom 0 pes = some (net pes) ∧ sizeFrom side.sign pes = some (net pes) := by
  induction pes with
  | nil => exact ⟨rfl, rfl⟩
  | cons pe pes ih =>
      obtain ⟨hside, hsz⟩ := h pe List.mem_cons_self
      obtain ⟨-, hrest⟩ := ih fun q hq => h q (List.mem_cons_of_mem _ hq)
      have hneg : ¬ pe.sz < 0 := not_lt.mpr hsz
      subst hside
      cases htype : pe.tradeType <;>
        simp only [htype, Side.sign_buy, Side.sign_sel] at hrest <;>
        simp [sizeFrom, htype, hneg, hrest]

theorem Position.totalSize_oneSided {p : Position} (h : p.OneSided) :
    p.totalSize = some (net p.openPositions) := by
  obtain ⟨side, hside⟩ := h
  exact (sizeFrom_oneSided hside).1

/-! ### Closing out -/

/-- What closing `k` of an entry at `px` realizes. -/
def gain (i : PosEntry) (k : ℤ) (px : ℚ) : ℚ := i.tradeType.sign * k * (px - i.tradePrice)

theorem calcRealizedPnl_eq {a b : PosEntry} (h : a.tradeType ≠ b.tradeType) :
    calcRealizedPnl a b =
      some (gain a (if a.sz < b.sz then a.sz else b.sz) b.tradePrice) := by
  unfold calcRealizedPnl gain
  rw [if_neg h]
  cases a.tradeType with
  | buy =>
      refine congrArg some ?_
      rw [Side.sign_buy, Int.cast_one, one_mul]
  | sel =>
      refine congrArg some ?_
      rw [Side.sign_sel, Int.cast_neg, Int.cast_one]
      ring

/-- The ways an entry of the other side meets a trade. -/
inductive Closes (i : PosEntry) (rest : List PosEntry) (e : PosEntry) :
    List PosEntry → ℚ → Prop where
  | part (hlt : e.sz < i.sz) :
      Closes i rest e ({ i with sz := i.sz - e.sz } :: rest) (gain i e.sz e.tradePrice)
  | whole (heq : i.sz = e.sz) : Closes i rest e rest (gain i i.sz e.tradePrice)
  | turns (hlt : i.sz < e.sz) (hlast : rest = []) :
      Closes i rest e [{ e with sz := e.sz - i.sz }] (gain i i.sz e.tradePrice)
  | goesOn {r : List PosEntry} {pnl : ℚ} (hlt : i.sz < e.sz) (hmore : rest ≠ [])
      (hrest : closeOutPositions rest { e with sz := e.sz - i.sz } = some (r, pnl)) :
      Closes i rest e r (gain i i.sz e.tradePrice + pnl)

/-- What closing out does with the entry in front. -/
theorem closeOutPositions_cons {i e : PosEntry} {rest r : List PosEntry} {pnl : ℚ}
    (hne : i.tradeType ≠ e.tradeType) (h : closeOutPositions (i :: rest) e = some (r, pnl)) :
    (0 ≤ i.sz ∧ 0 ≤ e.sz) ∧ Closes i rest e r pnl := by
  unfold closeOutPositions at h
  split at h
  · cases h
  next hnn =>
    rw [calcRealizedPnl_eq hne] at h
    dsimp only at h
    refine ⟨by omega, ?_⟩
    by_cases hlt : e.sz < i.sz
    · have hge : ¬ i.sz < e.sz := by omega
      rw [if_pos hlt, if_neg hge] at h
      cases h
      exact .part hlt
    · rw [if_neg hlt] at h
      by_cases heq : i.sz = e.sz
      · have hge : ¬ i.sz < e.sz := by omega
        rw [if_pos heq, if_neg hge, ← heq] at h
        cases h
        exact .whole heq
      · have hgt : i.sz < e.sz := by omega
        rw [if_neg heq, if_pos hgt] at h
        by_cases hlast : rest = []
        · rw [if_pos (List.isEmpty_iff.mpr hlast)] at h
          cases h
          exact .turns hgt hlast
        · rw [if_neg fun hnil => hlast (List.isEmpty_iff.mp hnil)] at h
          obtain ⟨⟨r', pnl'⟩, hrest, heq'⟩ := Option.map_eq_some_iff.mp h
          cases heq'
          exact .goesOn hgt hlast hrest

/-- Closing out entries of the other side never aborts where no size is negative. -/
theorem exists_closeOutPositions {side : Side} {pes : List PosEntry} {e : PosEntry}
    (hne : pes ≠ []) (hside : ∀ pe ∈ pes, pe.tradeType = side ∧ 0 ≤ pe.sz)
    (he : e.tradeType ≠ side) (hsz : 0 ≤ e.sz) :
    ∃ r pnl, closeOutPositions pes e = some (r, pnl) := by
  induction pes generalizing e with
  | nil => exact absurd rfl hne
  | cons i rest ih =>
      obtain ⟨hi, hisz⟩ := hside i List.mem_cons_self
      have hne' : i.tradeType ≠ e.tradeType := by
        rw [hi]
        exact he.symm
      unfold closeOutPositions
      rw [if_neg (by omega), calcRealizedPnl_eq hne']
      dsimp only
      split
      · exact ⟨_, _, rfl⟩
      · split
        · exact ⟨_, _, rfl⟩
        next hlt heq =>
          split
          · exact ⟨_, _, rfl⟩
          next hmore =>
            -- this entry is fully closed out and there is more to go
            obtain ⟨r, pnl, hr⟩ := ih (e := { e with sz := e.sz - i.sz })
              (fun hnil => hmore (List.isEmpty_iff.mpr hnil))
              (fun q hq => hside q (List.mem_cons_of_mem _ hq)) he (by dsimp only; omega)
            rw [hr]
            exact ⟨_, _, rfl⟩

/-- What is left after closing out is on one side and has no negative size, and the net size
    moves by the trade. -/
theorem closeOutPositions_some {side : Side} {pes : List PosEntry} {e : PosEntry}
    {r : List PosEntry} {pnl : ℚ} (hside : ∀ pe ∈ pes, pe.tradeType = side)
    (he : e.tradeType ≠ side) (h : closeOutPositions pes e = some (r, pnl)) :
    (∃ side', ∀ pe ∈ r, pe.tradeType = side') ∧
      ((∀ pe ∈ pes, 0 ≤ pe.sz) → ∀ pe ∈ r, 0 ≤ pe.sz) ∧
      net r = net pes + e.tradeType.sign * e.sz := by
  induction pes generalizing e r pnl with
  | nil => cases h
  | cons i rest ih =>
      have hi := hside i List.mem_cons_self
      have hrest : ∀ pe ∈ rest, pe.tradeType = side :=
        fun q hq => hside q (List.mem_cons_of_mem _ hq)
      have hsign : i.tradeType.sign = -e.tradeType.sign := by
        rw [hi]
        exact Side.sign_of_ne he.symm
      obtain ⟨-, hcloses⟩ := closeOutPositions_cons (by rw [hi]; exact he.symm) h
      cases hcloses with
      | part hlt =>
          refine ⟨⟨side, ?_⟩, fun hnn => ?_, ?_⟩
          · exact List.forall_mem_cons.mpr ⟨hi, hrest⟩
          · refine List.forall_mem_cons.mpr ⟨by dsimp only; omega, ?_⟩
            exact fun q hq => hnn q (List.mem_cons_of_mem _ hq)
          · rw [net_cons, net_cons, hsign]
            ring
      | whole heq =>
          refine ⟨⟨side, hrest⟩, fun hnn q hq => hnn q (List.mem_cons_of_mem _ hq), ?_⟩
          rw [net_cons, hsign, heq]
          ring
      | turns hlt hlast =>
          refine ⟨⟨e.tradeType, ?_⟩, fun _ => ?_, ?_⟩
          · exact List.forall_mem_singleton.mpr rfl
          · exact List.forall_mem_singleton.mpr (by dsimp only; omega)
          · rw [hlast, net_cons, net_cons, hsign]
            ring
      | goesOn hlt hmore hrec =>
          obtain ⟨hone, hnonneg, hnet⟩ := ih (e := { e with sz := e.sz - i.sz }) hrest he hrec
          refine ⟨hone, fun hnn => ?_, ?_⟩
          · exact hnonneg fun q hq => hnn q (List.mem_cons_of_mem _ hq)
          · rw [hnet, net_cons, hsign]
            ring

/-! ### Trades -/

/-- What a trade does to a position: it goes in front, or closes entries of the other side. -/
theorem addToPosition_cases {p p' : Position} {e : PosEntry}
    (h : p.addToPosition e = some p') :
    ((∀ pe ∈ p.openPositions.head?, pe.tradeType = e.tradeType) ∧
        p'.openPositions = e :: p.openPositions ∧ p'.realizedPnl = p.realizedPnl) ∨
      ∃ front rest r pnl, p.openPositions = front :: rest ∧ e.tradeType ≠ front.tradeType ∧
        closeOutPositions p.openPositions e = some (r, pnl) ∧ p'.openPositions = r ∧
        p'.realizedPnl = p.realizedPnl + pnl := by
  have hkeep : ∀ q : Position, (match e.tradeType with
      | .buy => { q with nbBuyShares := q.nbBuyShares + e.sz }
      | .sel => { q with nbSellShares := q.nbSellShares + e.sz }) = { q with
        nbBuyShares := (match e.tradeType with
          | .buy => q.nbBuyShares + e.sz
          | .sel => q.nbBuyShares)
        nbSellShares := (match e.tradeType with
          | .buy => q.nbSellShares
          | .sel => q.nbSellShares + e.sz) } := by
    intro q
    cases e.tradeType <;> rfl
  unfold Position.addToPosition at h
  rw [hkeep] at h
  dsimp only at h
  rcases hps : p.openPositions with _ | ⟨front, rest⟩
  · rw [hps] at h
    cases h
    refine .inl ⟨fun pe hpe => ?_, rfl, rfl⟩
    cases hpe
  · rw [hps] at h
    dsimp only at h
    split at h
    next hsame =>
      cases h
      refine .inl ⟨fun pe hpe => ?_, rfl, rfl⟩
      cases hpe
      exact hsame.symm
    next hdiffer =>
      obtain ⟨⟨r, pnl⟩, hclose, heq⟩ := Option.map_eq_some_iff.mp h
      cases heq
      exact .inr ⟨front, rest, r, pnl, rfl, hdiffer, hclose, rfl, rfl⟩

/-- A trade is taken where no size is negative. -/
theorem exists_addToPosition {p : Position} (hp : p.OneSided) {e : PosEntry} (hsz : 0 ≤ e.sz) :
    ∃ p', p.addToPosition e = some p' := by
  obtain ⟨side, hside⟩ := hp
  have hopen : ∀ q : Position, (match e.tradeType with
      | .buy => { q with nbBuyShares := q.nbBuyShares + e.sz }
      | .sel => { q with nbSellShares := q.nbSellShares + e.sz }).openPositions =
        q.openPositions := by
    intro q
    cases e.tradeType <;> rfl
  unfold Position.addToPosition
  simp only [hopen]
  rcases hps : p.openPositions with _ | ⟨front, rest⟩
  · exact ⟨_, rfl⟩
  · rw [hps] at hside
    dsimp only
    split
    · exact ⟨_, rfl⟩
    next hdiffer =>
      obtain ⟨hfront, -⟩ := hside front List.mem_cons_self
      obtain ⟨r, pnl, hr⟩ := exists_closeOutPositions (List.cons_ne_nil front rest) hside
        (by rw [← hfront]; exact hdiffer) hsz
      rw [hr]
      exact ⟨_, rfl⟩

/-- The entries stay on one side, and the net size moves by the trade. -/
theorem addToPosition_side {p p' : Position} {e : PosEntry}
    (hside : ∃ side, ∀ pe ∈ p.openPositions, pe.tradeType = side)
    (h : p.addToPosition e = some p') :
    (∃ side, ∀ pe ∈ p'.openPositions, pe.tradeType = side) ∧
      ((∀ pe ∈ p.openPositions, 0 ≤ pe.sz) → 0 ≤ e.sz → ∀ pe ∈ p'.openPositions, 0 ≤ pe.sz) ∧
      net p'.openPositions = net p.openPositions + e.tradeType.sign * e.sz := by
  obtain ⟨side, hside⟩ := hside
  rcases addToPosition_cases h with ⟨hsame, hopen, -⟩ |
    ⟨front, rest, r, pnl, hps, hne, hclose, hopen, -⟩
  · rw [hopen]
    refine ⟨⟨e.tradeType, List.forall_mem_cons.mpr ⟨rfl, ?_⟩⟩,
      fun hnn he => List.forall_mem_cons.mpr ⟨he, hnn⟩, ?_⟩
    · rcases hps : p.openPositions with _ | ⟨front, rest⟩
      · exact fun pe hpe => by cases hpe
      · rw [hps] at hside hsame
        have hfront : front.tradeType = e.tradeType := hsame front rfl
        have heq : side = e.tradeType := (hside front List.mem_cons_self).symm.trans hfront
        rwa [heq] at hside
    · rw [net_cons]
      ring
  · have hfront : front.tradeType = side := hside front (by rw [hps]; exact List.mem_cons_self)
    obtain ⟨hone, hnonneg, hnet⟩ := closeOutPositions_some hside (by rwa [← hfront]) hclose
    rw [hopen]
    exact ⟨hone, fun hnn _ => hnonneg hnn, hnet⟩

/-- **A trade moves the net size by its signed size**, keeps the position on one side, and
    never aborts. -/
theorem Position.addToPosition_spec {p : Position} (hp : p.OneSided) {e : PosEntry}
    (hsz : 0 ≤ e.sz) :
    ∃ p', p.addToPosition e = some p' ∧ p'.OneSided ∧
      net p'.openPositions = net p.openPositions + e.tradeType.sign * e.sz := by
  obtain ⟨p', hadd⟩ := exists_addToPosition hp hsz
  obtain ⟨side, hside⟩ := hp
  obtain ⟨⟨side', hone⟩, hnonneg, hnet⟩ :=
    addToPosition_side ⟨side, fun pe hpe => (hside pe hpe).1⟩ hadd
  have hnn := hnonneg (fun pe hpe => (hside pe hpe).2) hsz
  exact ⟨p', hadd, ⟨side', fun pe hpe => ⟨hone pe hpe, hnn pe hpe⟩⟩, hnet⟩

end KasparHft.Pos
