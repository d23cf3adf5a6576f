import KasparHft.ILinkGaps
import Mathlib.Tactic.Linarith

/-!
# What the fills of an order add up to

A trade fills what was still to be filled less `LeavesQty`.  Reports come late and more than
once, and each of them, an overfill too, puts what is still to be filled to its own `LeavesQty`.
So an old report makes the next one fill again what was filled before it.

The fills of an order sum up to its largest `CumQty` as long as every report of it either is
not beyond the one handled last, or finds the one handled last the largest.
-/

namespace KasparHft.ILink

open AssocMap Machine

/-! ### Sums of reports -/

/-- The quantity of the report handled last; the latest report stands first. -/
def lastCum (cums : List ℕ) : ℕ := cums.headD 0

/-- The largest quantity reported. -/
def maxCum (cums : List ℕ) : ℕ := cums.foldr max 0

/-- What the reports fill: each the part beyond the report before it. -/
def fillSum : List ℕ → ℕ
  | [] => 0
  | c :: cums => fillSum cums + (c - lastCum cums)

/-- A report keeps the filled amount the largest one reported. -/
def Continues (cums : List ℕ) (c : ℕ) : Prop := c ≤ lastCum cums ∨ lastCum cums = maxCum cums

instance (cums : List ℕ) (c : ℕ) : Decidable (Continues cums c) :=
  inferInstanceAs (Decidable (_ ∨ _))

@[simp] theorem maxCum_cons (c : ℕ) (cums : List ℕ) :
    maxCum (c :: cums) = max c (maxCum cums) := rfl

theorem lastCum_le_maxCum (cums : List ℕ) : lastCum cums ≤ maxCum cums := by
  cases cums with
  | nil => exact le_refl 0
  | cons c cums => exact le_max_left _ _

theorem maxCum_le {cums : List ℕ} {b : ℚ} (hb : 0 ≤ b) (h : ∀ c ∈ cums, (c : ℚ) ≤ b) :
    (maxCum cums : ℚ) ≤ b := by
  induction cums with
  | nil => simpa [maxCum] using hb
  | cons c cums ih =>
      obtain ⟨hc, hcums⟩ := List.forall_mem_cons.mp h
      rw [maxCum_cons, Nat.cast_max]
      exact max_le hc (ih hcums)

/-- **The one report** that keeps the sum right. -/
theorem fillSum_cons_iff {cums : List ℕ} {c : ℕ} (h : fillSum cums = maxCum cums) :
    fillSum (c :: cums) = maxCum (c :: cums) ↔ Continues cums c := by
  have hle := lastCum_le_maxCum cums
  rw [fillSum, maxCum_cons, h, Continues]
  constructor
  · intro hsum
    by_cases hc : c ≤ lastCum cums
    · exact .inl hc
    · right
      omega
  · rintro (hc | hlast)
    · rw [Nat.sub_eq_zero_of_le hc, Nat.add_zero, max_eq_right (hc.trans hle)]
    · rw [hlast]
      omega

/-! ### What the handler fills -/

/-- The size of what is sent, if it is a fill of the order to `dest`. -/
def fillOf (dest : ℕ) (coid : Int32) : Sent → ℚ
  | .fill d f => if d = dest ∧ f.id = coid.toUInt32 then f.sz else 0
  | _ => 0

/-- The sum of the sizes of the fills of an order sent to `dest`. -/
def filled (dest : ℕ) (coid : Int32) (out : List Sent) : ℚ := (out.map (fillOf dest coid)).sum

@[simp] theorem filled_nil (dest : ℕ) (coid : Int32) : filled dest coid [] = 0 := rfl

@[simp] theorem filled_append (dest : ℕ) (coid : Int32) (out out' : List Sent) :
    filled dest coid (out ++ out') = filled dest coid out + filled dest coid out' := by
  simp [filled]

/-- Nothing sent is a fill. -/
def FillFree (o : List Sent) : Prop := ∀ dest coid, filled dest coid o = 0

theorem FillFree.append {o o' : List Sent} (h : FillFree o) (h' : FillFree o') :
    FillFree (o ++ o') := by
  intro dest coid
  rw [filled_append, h, h', add_zero]

theorem fillFree_requests (rs : List Request) : FillFree (rs.map .retransmissionRequest) := by
  intro dest coid
  induction rs with
  | nil => rfl
  | cons r rs ih => simpa [filled, fillOf] using ih

theorem toUInt32_inj {a b : Int32} (h : a.toUInt32 = b.toUInt32) : a = b :=
  Int32.toBitVec.inj (congrArg UInt32.toBitVec h)

/-- The order and the quantity that a trade reports. -/
def reported (s : State) : Event → Option (Int32 × ℕ)
  | .executionReport param =>
      if param.templateId = .tradeOutright525 then
        (s.cloidToCoid.lookup param.clOrdID).map fun coid => (coid, param.cumQty)
      else none
  | _ => none

/-- The trades handled so far, the latest first. -/
def noteReport (s : State) (e : Event) (reports : List (Int32 × ℕ)) : List (Int32 × ℕ) :=
  (reported s e).toList ++ reports

/-- The quantities reported of an order, the latest first. -/
def cums (reports : List (Int32 × ℕ)) (coid : Int32) : List ℕ :=
  (reports.filter (·.1 = coid)).map (·.2)

/-- What one message does to the orders, and what it fills. -/
inductive Fills (cfg : Cfg) (s : State) : Event → List Sent → State → Prop where
  | quiet {e : Event} {o : List Sent} {s' : State} (hquiet : FillFree o)
      (hnone : reported s e = none) (horder : s'.coidToOrder = s.coidToOrder) :
      Fills cfg s e o s'
  | placed {m : Som.Order} {cloidStart : String} {hms seqnum : ℕ} {o : List Sent} {s' : State}
      (hsz : 0 < m.sz) (hquiet : FillFree o)
      (horder : s'.coidToOrder = s.coidToOrder.insert m.oid m) :
      Fills cfg s (.order m cloidStart hms seqnum) o s'
  | traded {param : ExecReport} {coid : Int32} {order : Som.Order} {o : List Sent} {s' : State}
      (htemplate : param.templateId = .tradeOutright525)
      (hcoid : s.cloidToCoid.lookup param.clOrdID = some coid)
      (hlookup : s.coidToOrder.lookup coid = some order) (hquiet : FillFree o)
      (horder : s'.coidToOrder = (s.onTrade cfg order coid param).1.coidToOrder) :
      Fills cfg s (.executionReport param) ((s.onTrade cfg order coid param).2 ++ o) s'

theorem State.inbound_quiet {s s' : State} {i : Inbound} {o : List Sent}
    (h : s.inbound i = some (s', o)) : FillFree o ∧ s'.coidToOrder = s.coidToOrder := by
  obtain ⟨r, -, heq⟩ := Option.map_eq_some_iff.mp h
  cases heq
  exact ⟨fillFree_requests r.2, rfl⟩

theorem andThen_eq_some {r : Option (State × List Sent)} {f : State → Option (State × List Sent)}
    {s' : State} {o : List Sent} :
    andThen r f = some (s', o) ↔
      ∃ m o₁ o₂, r = some (m, o₁) ∧ f m = some (s', o₂) ∧ o = o₁ ++ o₂ := by
  simp only [andThen, Option.bind_eq_some_iff, Option.map_eq_some_iff, Prod.exists,
    Prod.mk.injEq]
  constructor
  · rintro ⟨m, o₁, hr, m', o₂, hf, rfl, rfl⟩
    exact ⟨m, o₁, o₂, hr, hf, rfl⟩
  · rintro ⟨m, o₁, o₂, hr, hf, rfl⟩
    exact ⟨m, o₁, hr, s', o₂, hf, rfl, rfl⟩

/-- Only a trade fills. -/
theorem onReport_fills {cfg : Cfg} {s s' : State} {order : Som.Order} {coid : Int32}
    {param : ExecReport} {o : List Sent} (h : s.onReport cfg order coid param = some (s', o)) :
    (param.templateId = .tradeOutright525 ∧ (s', o) = s.onTrade cfg order coid param) ∨
    (param.templateId ≠ .tradeOutright525 ∧ FillFree o ∧ s'.coidToOrder = s.coidToOrder) := by
  unfold State.onReport at h
  cases htemplate : param.templateId <;> simp only [htemplate] at h
  case tradeOutright525 => exact .inl ⟨rfl, (Option.some_inj.mp h).symm⟩
  case reject523 =>
    split at h
    next => simp at h
    next =>
      cases h
      exact .inr ⟨by simp, by simp [FillFree, filled, fillOf], rfl⟩
  case status532 => simp at h
  case tradeSpread526 => simp at h
  case other => simp at h
  all_goals
    cases h
    exact .inr ⟨by simp, by simp [FillFree, filled, fillOf], rfl⟩

theorem executionReport_fills {cfg : Cfg} {s s' : State} {param : ExecReport} {o : List Sent}
    (h : s.executionReportHandler cfg param = some (s', o)) :
    Fills cfg s (.executionReport param) o s' := by
  unfold State.executionReportHandler at h
  cases hcoid : s.cloidToCoid.lookup param.clOrdID with
  | none =>
      simp only [hcoid] at h
      obtain ⟨hquiet, horder⟩ := State.inbound_quiet h
      exact .quiet hquiet (by simp [reported, hcoid]) horder
  | some coid =>
      simp only [hcoid] at h
      obtain ⟨order, hlookup, h⟩ := Option.bind_eq_some_iff.mp h
      obtain ⟨m, o₁, o₂, hreport, hseq, rfl⟩ := andThen_eq_some.mp h
      obtain ⟨hquiet₂, horder₂⟩ := State.inbound_quiet hseq
      rcases onReport_fills hreport with ⟨htemplate, heq⟩ | ⟨htemplate, hquiet, horder⟩
      · obtain ⟨rfl, rfl⟩ := Prod.mk.inj heq
        exact .traded htemplate hcoid hlookup hquiet₂ horder₂
      · exact .quiet (hquiet.append hquiet₂) (by simp [reported, htemplate])
          (horder₂.trans horder)

/-- **What one message fills.** -/
theorem handle_fills {cfg : Cfg} {s s' : State} {e : Event} {o : List Sent}
    (h : handle cfg s e = some (s', o)) : Fills cfg s e o s' := by
  cases e with
  | bind lastseqFromCme =>
      cases h
      exact .quiet (fun _ _ => rfl) rfl rfl
  | order m cloidStart hms seqnum =>
      simp only [handle, State.orderHandler, Option.ite_none_left_eq_some] at h
      obtain ⟨hpos, h⟩ := h
      obtain ⟨cloid, -, h⟩ := Option.bind_eq_some_iff.mp h
      simp only [Option.ite_none_left_eq_some] at h
      obtain ⟨-, h⟩ := h
      cases h
      exact .placed (not_le.mp fun hsz => hpos (.inr hsz)) (fun _ _ => by simp [filled, fillOf]) rfl
  | cancel id sender seqnum =>
      simp only [handle, State.cancelHandler] at h
      obtain ⟨order, -, h⟩ := Option.bind_eq_some_iff.mp h
      obtain ⟨cloid, -, h⟩ := Option.map_eq_some_iff.mp h
      split at h
      next =>
        cases h
        exact .quiet (fun _ _ => by simp [filled, fillOf]) rfl rfl
      next =>
        cases h
        exact .quiet (fun _ _ => by simp [filled, fillOf]) rfl rfl
  | executionReport param => exact executionReport_fills h
  | cancelReject isReplace clOrdID seqNum =>
      simp only [handle, State.cancelRejectHandler] at h
      obtain ⟨coid, -, h⟩ := Option.bind_eq_some_iff.mp h
      obtain ⟨order, -, h⟩ := Option.bind_eq_some_iff.mp h
      obtain ⟨m, o₁, o₂, hsent, hseq, rfl⟩ := andThen_eq_some.mp h
      cases hsent
      obtain ⟨hquiet, horder⟩ := State.inbound_quiet hseq
      refine .quiet (FillFree.append ?_ hquiet) rfl horder
      cases isReplace <;> exact fun _ _ => by simp [filled, fillOf]
  | businessReject refID reason seqNum =>
      simp only [handle, State.businessRejectHandler] at h
      obtain ⟨m, o₁, o₂, hseq, hrest, rfl⟩ := andThen_eq_some.mp h
      obtain ⟨hquiet, horder⟩ := State.inbound_quiet hseq
      simp only [Option.ite_none_left_eq_some] at hrest
      obtain ⟨rejected, hrejected, heq⟩ := Option.map_eq_some_iff.mp hrest.2
      cases heq
      refine .quiet (hquiet.append (FillFree.append ?_ ?_)) rfl horder
      · split at hrejected
        next =>
          cases hrejected
          exact fun _ _ => rfl
        next =>
          obtain ⟨order, -, rfl⟩ := Option.map_eq_some_iff.mp hrejected
          exact fun _ _ => by simp [filled, fillOf]
      · split
        next => exact fun _ _ => rfl
        next =>
          split
          next => exact fun _ _ => rfl
          next => exact fun _ _ => by simp [filled, fillOf]
  | partyDetailsAck seqNum reqid =>
      simp only [handle] at h
      obtain ⟨m, o₁, o₂, hseq, heq, rfl⟩ := andThen_eq_some.mp h
      obtain ⟨hquiet, horder⟩ := State.inbound_quiet hseq
      cases heq
      exact .quiet (hquiet.append fun _ _ => by simp [filled, fillOf]) rfl horder
  | notApplied nextSeqNo =>
      simp only [handle] at h
      obtain ⟨m, o₁, o₂, heq, hseq, rfl⟩ := andThen_eq_some.mp h
      cases heq
      obtain ⟨hquiet, horder⟩ := State.inbound_quiet hseq
      exact .quiet (FillFree.append (fun _ _ => by simp [filled, fillOf]) hquiet) rfl horder
  | sequence nextSeqNo lapsed =>
      simp only [handle] at h
      obtain ⟨m, o₁, o₂, heq, hseq, rfl⟩ := andThen_eq_some.mp h
      cases heq
      obtain ⟨hquiet, horder⟩ := State.inbound_quiet hseq
      refine .quiet (FillFree.append ?_ hquiet) rfl horder
      cases lapsed <;> exact fun _ _ => by simp [filled, fillOf]

/-! ### One trade -/

theorem toInt32_eq {n : ℕ} (h : n < 2 ^ 31) : toInt32 n = n := if_pos h

theorem onTrade_orders {cfg : Cfg} {s : State} {order : Som.Order} {coid : Int32}
    {param : ExecReport} (hleaves : param.leavesQty < 2 ^ 31) :
    (s.onTrade cfg order coid param).1.coidToOrder =
      s.coidToOrder.insert coid { order with stillToBeFilled := param.leavesQty } := by
  simp only [State.onTrade, toInt32_eq hleaves]
  split <;> rfl

/-- A trade fills what it reports beyond the last one. -/
theorem onTrade_filled {cfg : Cfg} {s : State} {order : Som.Order} {coid : Int32}
    {param : ExecReport} {last : ℕ} (hoid : order.oid = coid)
    (hleaves : param.leavesQty < 2 ^ 31) (hcum : param.cumQty < 2 ^ 31)
    (hstill : order.stillToBeFilled + last = param.cumQty + param.leavesQty) (dest : ℕ)
    (coid' : Int32) :
    filled dest coid' (s.onTrade cfg order coid param).2 =
      if dest = order.sender ∧ coid' = coid then ((param.cumQty - last : ℕ) : ℚ) else 0 := by
  unfold State.onTrade
  rw [toInt32_eq hleaves]
  by_cases hover : param.cumQty < last
  · rw [if_pos (.inl (by omega)), Nat.sub_eq_zero_of_le hover.le]
    simp
  · have hamt :
        ((order.stillToBeFilled - param.leavesQty) % 2 ^ 32).toNat = param.cumQty - last := by
      omega
    simp only [hamt]
    split
    next hnone =>
      have hzero : param.cumQty - last = 0 := by
        exact_mod_cast hnone.resolve_left (by omega)
      simp [hzero]
    next =>
      simp only [filled, List.map_cons, List.map_nil, List.sum_cons, List.sum_nil, add_zero,
        fillOf, hoid]
      refine if_congr ?_ rfl rfl
      constructor
      · rintro ⟨rfl, hid⟩
        exact ⟨rfl, (toUInt32_inj hid).symm⟩
      · rintro ⟨rfl, rfl⟩
        exact ⟨rfl, rfl⟩

/-! ### Runs -/

/-- The handler, with the trades it handled. -/
def fillStep (cfg : Cfg) : State × List (Int32 × ℕ) → Event →
    Option ((State × List (Int32 × ℕ)) × List Sent) :=
  withGhost (handle cfg) noteReport

/-- An order is new, and all of it is to be filled; a trade reports what is filled and what is
    left of the size of its order. -/
def Consistent (sr : State × List (Int32 × ℕ)) : Event → Prop
  | .order m _ _ _ =>
      sr.1.coidToOrder.lookup m.oid = none ∧ m.stillToBeFilled = m.sz ∧ m.sz < 2 ^ 31
  | .executionReport param =>
      param.templateId = .tradeOutright525 →
        ∀ coid ∈ sr.1.cloidToCoid.lookup param.clOrdID, ∀ order ∈ sr.1.coidToOrder.lookup coid,
          (param.cumQty + param.leavesQty : ℚ) = order.sz
  | _ => True

/-- The trade is not beyond the last one of its order, or the last one is the largest. -/
def InTurn (sr : State × List (Int32 × ℕ)) (e : Event) : Prop :=
  ∀ r ∈ reported sr.1 e, Continues (cums sr.2 r.1) r.2

/-- The fills of every order sum up to the largest quantity reported of it, and not to more
    than its size. -/
def Conserved (out : List Sent) (sr : State × List (Int32 × ℕ)) : Prop :=
  ∀ coid order, sr.1.coidToOrder.lookup coid = some order →
    filled order.sender coid out = maxCum (cums sr.2 coid) ∧
      filled order.sender coid out ≤ order.sz

/-- What was filled and is left of an order. -/
structure Account (out : List Sent) (reports : List (Int32 × ℕ)) (coid : Int32)
    (order : Som.Order) : Prop where
  oid : order.oid = coid
  nonneg : 0 ≤ order.sz
  still : (order.stillToBeFilled : ℚ) + lastCum (cums reports coid) = order.sz
  small : order.sz < 2 ^ 31
  cums_le : ∀ c ∈ cums reports coid, (c : ℚ) ≤ order.sz
  filled_eq : filled order.sender coid out = fillSum (cums reports coid)

/-- Every order has its account, and nothing was filled or reported of any other. -/
structure Accounts (out : List Sent) (sr : State × List (Int32 × ℕ)) : Prop where
  known : ∀ coid order, sr.1.coidToOrder.lookup coid = some order → Account out sr.2 coid order
  unknown : ∀ coid, sr.1.coidToOrder.lookup coid = none →
    cums sr.2 coid = [] ∧ ∀ dest, filled dest coid out = 0

@[simp] theorem cums_cons_self (coid : Int32) (c : ℕ) (reports : List (Int32 × ℕ)) :
    cums ((coid, c) :: reports) coid = c :: cums reports coid := by
  simp [cums]

theorem cums_cons_ne {coid coid' : Int32} (hne : coid' ≠ coid) (c : ℕ)
    (reports : List (Int32 × ℕ)) : cums ((coid', c) :: reports) coid = cums reports coid := by
  simp [cums, hne]

theorem Accounts.start : Accounts [] (({} : State), []) :=
  ⟨fun _ _ h => by simp at h, fun _ _ => ⟨rfl, fun _ => rfl⟩⟩

section Step

variable {cfg : Cfg} {out o : List Sent} {sr sr' : State × List (Int32 × ℕ)} {e : Event}

theorem Account.append {reports : List (Int32 × ℕ)} {coid : Int32} {order : Som.Order}
    (h : Account out reports coid order) (hquiet : filled order.sender coid o = 0) :
    Account (out ++ o) reports coid order :=
  { h with filled_eq := by rw [filled_append, hquiet, add_zero, h.filled_eq] }

theorem Account.congr {reports reports' : List (Int32 × ℕ)} {coid : Int32} {order : Som.Order}
    (h : Account out reports coid order) (hsame : cums reports' coid = cums reports coid) :
    Account out reports' coid order where
  oid := h.oid
  nonneg := h.nonneg
  still := hsame ▸ h.still
  small := h.small
  cums_le := hsame ▸ h.cums_le
  filled_eq := hsame ▸ h.filled_eq

/-- The quantities of a trade of the order are within `int`, and the handler computes without
    wrapping. -/
theorem Account.sizes {reports : List (Int32 × ℕ)} {coid : Int32} {order : Som.Order}
    {cum leaves : ℕ} (h : Account out reports coid order) (hsum : (cum + leaves : ℚ) = order.sz) :
    leaves < 2 ^ 31 ∧ cum < 2 ^ 31 ∧
      order.stillToBeFilled + lastCum (cums reports coid) = cum + leaves := by
  have hsmall : (cum + leaves : ℚ) < 2 ^ 31 := hsum ▸ h.small
  have hlt : cum + leaves < 2 ^ 31 := by exact_mod_cast hsmall
  have hstill : (order.stillToBeFilled : ℚ) + lastCum (cums reports coid) = cum + leaves :=
    h.still.trans hsum.symm
  refine ⟨by omega, by omega, ?_⟩
  exact_mod_cast hstill

/-- The account of an order after a trade of it. -/
theorem Account.traded {reports : List (Int32 × ℕ)} {coid : Int32} {order : Som.Order}
    {cum leaves : ℕ} (h : Account out reports coid order) (hsum : (cum + leaves : ℚ) = order.sz)
    (hfilled : filled order.sender coid o = ((cum - lastCum (cums reports coid) : ℕ) : ℚ)) :
    Account (out ++ o) ((coid, cum) :: reports) coid
      { order with stillToBeFilled := leaves } := by
  have hnonneg : (0 : ℚ) ≤ leaves := Nat.cast_nonneg leaves
  constructor
  · exact h.oid
  · exact h.nonneg
  · change ((leaves : ℤ) : ℚ) + _ = order.sz
    rw [cums_cons_self, ← hsum]
    exact add_comm _ _
  · exact h.small
  · rw [cums_cons_self]
    refine List.forall_mem_cons.mpr ⟨?_, h.cums_le⟩
    change (cum : ℚ) ≤ order.sz
    linarith
  · change filled order.sender coid _ = _
    rw [cums_cons_self, fillSum, filled_append, h.filled_eq, hfilled]
    push_cast
    rfl

/-- **Every step keeps the accounts**, in turn or not. -/
theorem Accounts.step (h : Accounts out sr) (hcons : Consistent sr e)
    (hstep : fillStep cfg sr e = some (sr', o)) : Accounts (out ++ o) sr' := by
  obtain ⟨s, reports⟩ := sr
  obtain ⟨s', reports'⟩ := sr'
  obtain ⟨hhandle, rfl⟩ := withGhost_eq_some.mp hstep
  cases handle_fills hhandle with
  | quiet hquiet hnone horder =>
      have hnote : noteReport s e reports = reports := by simp [noteReport, hnone]
      rw [hnote]
      constructor
      · intro coid order hlookup
        rw [horder] at hlookup
        exact (h.known coid order hlookup).append (hquiet _ _)
      · intro coid hlookup
        rw [horder] at hlookup
        obtain ⟨hcums, hzero⟩ := h.unknown coid hlookup
        exact ⟨hcums, fun dest => by rw [filled_append, hzero, hquiet, add_zero]⟩
  | @placed m _ _ _ _ _ hsz hquiet horder =>
      obtain ⟨hfresh, hwhole, hsmall⟩ := hcons
      obtain ⟨hnew, hnewzero⟩ := h.unknown m.oid hfresh
      constructor
      · intro coid order hlookup
        change s'.coidToOrder.lookup coid = some order at hlookup
        rw [horder] at hlookup
        by_cases hcoid : coid = m.oid
        · rw [hcoid, AList.lookup_insert, Option.some_inj] at hlookup
          subst hlookup
          subst hcoid
          change cums reports m.oid = [] at hnew
          refine ⟨rfl, hsz.le, ?_, hsmall, ?_, ?_⟩
          · change (m.stillToBeFilled : ℚ) + lastCum (cums reports m.oid) = m.sz
            rw [hnew, hwhole]
            simp [lastCum]
          · change ∀ c ∈ cums reports m.oid, _
            simp [hnew]
          · change filled m.sender m.oid (out ++ o) = fillSum (cums reports m.oid)
            rw [filled_append, hnewzero, hquiet, hnew]
            simp [fillSum]
        · rw [AList.lookup_insert_ne hcoid] at hlookup
          exact (h.known coid order hlookup).append (hquiet _ _)
      · intro coid hlookup
        change s'.coidToOrder.lookup coid = none at hlookup
        rw [horder] at hlookup
        have hcoid : coid ≠ m.oid := by
          rintro rfl
          simp at hlookup
        rw [AList.lookup_insert_ne hcoid] at hlookup
        obtain ⟨hcums, hzero⟩ := h.unknown coid hlookup
        exact ⟨hcums, fun dest => by rw [filled_append, hzero, hquiet, add_zero]⟩
  | @traded param coid order rest _ htemplate hcoid hlookup hquiet horder =>
      have hsum := hcons htemplate coid hcoid order hlookup
      have hacc := h.known coid order hlookup
      have hnote : noteReport s (.executionReport param) reports =
          (coid, param.cumQty) :: reports := by
        simp [noteReport, reported, htemplate, hcoid]
      obtain ⟨hleaves, hcum, hstill⟩ := hacc.sizes hsum
      have hfilled := @onTrade_filled cfg s order coid param _ hacc.oid hleaves hcum hstill
      rw [onTrade_orders hleaves] at horder
      rw [hnote]
      have hothers : ∀ coid', coid' ≠ coid → ∀ dest,
          filled dest coid' ((s.onTrade cfg order coid param).2 ++ rest) = 0 := by
        intro coid' hne dest
        rw [filled_append, hquiet, hfilled, if_neg (fun hand => hne hand.2), add_zero]
      constructor
      · intro coid' order' hlookup'
        change s'.coidToOrder.lookup coid' = some order' at hlookup'
        rw [horder] at hlookup'
        by_cases heq : coid' = coid
        · subst heq
          rw [AList.lookup_insert, Option.some_inj] at hlookup'
          subst hlookup'
          refine hacc.traded hsum ?_
          rw [filled_append, hquiet, hfilled, if_pos ⟨rfl, rfl⟩, add_zero]
        · rw [AList.lookup_insert_ne heq] at hlookup'
          have hold := (h.known coid' order' hlookup').append (hothers coid' heq _)
          exact hold.congr (cums_cons_ne (Ne.symm heq) _ _)
      · intro coid' hlookup'
        change s'.coidToOrder.lookup coid' = none at hlookup'
        rw [horder] at hlookup'
        have heq : coid' ≠ coid := by
          rintro rfl
          simp at hlookup'
        rw [AList.lookup_insert_ne heq] at hlookup'
        obtain ⟨hcums, hzero⟩ := h.unknown coid' hlookup'
        refine ⟨(cums_cons_ne (Ne.symm heq) _ _).trans hcums, fun dest => ?_⟩
        rw [filled_append, hzero, hothers coid' heq, add_zero]

/-- Conservation speaks of the reports alone. -/
theorem Accounts.conserved_iff (h : Accounts out sr) :
    Conserved out sr ↔ ∀ coid, fillSum (cums sr.2 coid) = maxCum (cums sr.2 coid) := by
  constructor
  · intro hconserved coid
    cases hlookup : sr.1.coidToOrder.lookup coid with
    | none =>
        rw [(h.unknown coid hlookup).1]
        rfl
    | some order =>
        have heq := (hconserved coid order hlookup).1
        rw [(h.known coid order hlookup).filled_eq] at heq
        exact_mod_cast heq
  · intro hbalanced coid order hlookup
    have hacc := h.known coid order hlookup
    rw [hacc.filled_eq, hbalanced coid]
    exact ⟨rfl, maxCum_le hacc.nonneg hacc.cums_le⟩

/-- **A step keeps the sums right** exactly when its trade is in turn. -/
theorem conserved_step_iff (h : Accounts out sr) (hcons : Consistent sr e)
    (hconserved : Conserved out sr) (hstep : fillStep cfg sr e = some (sr', o)) :
    Conserved (out ++ o) sr' ↔ InTurn sr e := by
  rw [(h.step hcons hstep).conserved_iff]
  rw [h.conserved_iff] at hconserved
  obtain ⟨s, reports⟩ := sr
  obtain ⟨s', reports'⟩ := sr'
  obtain ⟨-, rfl⟩ := withGhost_eq_some.mp hstep
  unfold InTurn noteReport
  cases hreported : reported s e with
  | none => simpa using hconserved
  | some r =>
      obtain ⟨coid, c⟩ := r
      simp only [Option.toList_some, List.cons_append, List.nil_append]
      constructor
      · intro hsums r hr
        obtain rfl := Option.mem_some_iff.mp hr
        have hsum := hsums coid
        rw [cums_cons_self] at hsum
        exact (fillSum_cons_iff (hconserved coid)).mp hsum
      · intro hturn coid'
        by_cases heq : coid' = coid
        · rw [heq, cums_cons_self]
          exact (fillSum_cons_iff (hconserved coid)).mpr (hturn _ rfl)
        · rw [cums_cons_ne (Ne.symm heq)]
          exact hconserved coid'

theorem conserved_start : Conserved [] (({} : State), []) := fun _ _ h => by simp at h

end Step

/-- **What an order is filled**: in every run of consistent reports the fills of each order
    sum up to its largest `CumQty`, after each message, exactly when each trade, in the state
    it finds, is not beyond the last one of its order or finds the last one the largest. -/
theorem fills_conserved_iff (cfg : Cfg) (es : List Event) (t : State × List (Int32 × ℕ))
    (os : List Sent) (hcons : AllSteps (fillStep cfg) Consistent ({}, []) es)
    (hrun : run (fillStep cfg) ({}, []) es = some (t, os)) :
    (∀ past rest sr out, es = past ++ rest →
      run (fillStep cfg) ({}, []) past = some (sr, out) → Conserved out sr) ↔
      AllSteps (fillStep cfg) InTurn ({}, []) es :=
  always_iff_allSteps (J := Accounts) .start conserved_start
    (fun _ _ _ _ _ hacc hP _ _ hstep => hacc.step hP hstep)
    (fun _ _ _ _ _ hacc hP hI hstep => conserved_step_iff hacc hP hI hstep) hcons hrun

instance decidableInTurn (sr : State × List (Int32 × ℕ)) (e : Event) : Decidable (InTurn sr e) :=
  inferInstanceAs (Decidable (∀ r ∈ reported sr.1 e, Continues (cums sr.2 r.1) r.2))

instance decidableConsistent (sr : State × List (Int32 × ℕ)) (e : Event) :
    Decidable (Consistent sr e) :=
  match e with
  | .order m _ _ _ =>
      inferInstanceAs (Decidable
        (sr.1.coidToOrder.lookup m.oid = none ∧ m.stillToBeFilled = m.sz ∧ m.sz < 2 ^ 31))
  | .executionReport param =>
      -- the order ids are not gone through, though there are finitely many
      @instDecidableForall _ _ inferInstance
        (Option.decidableForallMem (sr.1.cloidToCoid.lookup param.clOrdID))
  | .bind _ | .cancel _ _ _ | .cancelReject _ _ _ | .businessReject _ _ _ | .partyDetailsAck _ _
  | .notApplied _ | .sequence _ _ => inferInstanceAs (Decidable True)

section Sample

/-- Prices are left as their mantissa. -/
def sampleCfg : Cfg := { roundingDigits := fun _ => 2, toPx := fun _ mantissa _ => mantissa }

/-- An order of ten, and a report of it. -/
def sampleOrder : Event :=
  .order { venue := 1, sym := 2, sz := 10, px := 100, stillToBeFilled := 10, oid := 7, side := .buy,
           owner := 3, sender := 4 } "STR" 93000 1

def sampleTrade (seqNum cumQty leavesQty : ℕ) : Event :=
  .executionReport
    { templateId := .tradeOutright525, seqNum, clOrdID := "STR93000X7", orderID := 55
      lastPxMantissa := 100, lastPxExponent := 0, transactTime := 0, lastQty := cumQty, leavesQty
      cumQty }

theorem reports_in_order_conserved :
    let es := [sampleOrder, sampleTrade 1 4 6, sampleTrade 1 4 6, sampleTrade 2 10 0,
      sampleTrade 1 4 6]
    ∀ past rest sr out, es = past ++ rest →
      run (fillStep sampleCfg) ({}, []) past = some (sr, out) → Conserved out sr := by
  have hrun : ((run (fillStep sampleCfg) ({}, []) [sampleOrder, sampleTrade 1 4 6,
      sampleTrade 1 4 6, sampleTrade 2 10 0, sampleTrade 1 4 6]).map
      fun r => filled 4 7 r.2) = some 10 := by decide +kernel
  obtain ⟨⟨t, os⟩, hrun, -⟩ := Option.map_eq_some_iff.mp hrun
  exact (fills_conserved_iff sampleCfg _ t os (by decide +kernel) hrun).mpr (by decide +kernel)

/-- The first of two reports is repeated, and then the second: ten are ordered and sixteen
    filled. -/
theorem repeated_reports_fill_twice :
    ∃ sr out,
      run (fillStep sampleCfg) ({}, []) [sampleOrder, sampleTrade 1 4 6, sampleTrade 2 10 0,
        sampleTrade 1 4 6, sampleTrade 2 10 0] = some (sr, out) ∧
      AllSteps (fillStep sampleCfg) Consistent ({}, []) [sampleOrder, sampleTrade 1 4 6,
        sampleTrade 2 10 0, sampleTrade 1 4 6, sampleTrade 2 10 0] ∧
      filled 4 7 out = 16 ∧ ¬ Conserved out sr := by
  have hrun : ((run (fillStep sampleCfg) ({}, []) [sampleOrder, sampleTrade 1 4 6,
      sampleTrade 2 10 0, sampleTrade 1 4 6, sampleTrade 2 10 0]).map fun r =>
        (filled 4 7 r.2, r.1.1.coidToOrder.lookup 7 |>.map fun m => (m.sender, m.sz))) =
      some (16, some (4, 10)) := by decide +kernel
  obtain ⟨⟨sr, out⟩, hrun, heq⟩ := Option.map_eq_some_iff.mp hrun
  obtain ⟨hfilled, horder⟩ := Prod.mk.inj heq
  refine ⟨sr, out, hrun, by decide +kernel, hfilled, fun hconserved => ?_⟩
  obtain ⟨order, hlookup, hm⟩ := Option.map_eq_some_iff.mp horder
  obtain ⟨hsender, hsz⟩ := Prod.mk.inj hm
  have hle := (hconserved 7 order hlookup).2
  rw [hsender, hfilled, hsz] at hle
  exact absurd hle (by decide +kernel)

end Sample

end KasparHft.ILink
