import KasparHft.FillSlateCounts
import Mathlib.Data.List.Infix

/-!
# The rules of a transaction

The header's rules as a function of the records of a transaction: of the orders its trade records
list, and of the own record of each of them, its first Change or Delete.  A slate that is told of
all trade records before the first own record releases every fill with the role of the rules, at
the record that settles them or later; before that, and only in a 1 vs 1, as ambiguous.
-/

namespace KasparHft.FillSlate

open Machine AssocMap

variable {Px Pl : Type} {s s' : Slate Px Pl} {samePx : Px → Px → Bool} {d : ASide}
  {o : List (Released Px Pl)} {ts : List (Trade Px Pl)}

/-! ### The records of a transaction -/

/-- A Change or Delete record. -/
structure BookRecord (Px : Type) where
  oid : ℕ
  action : ℕ
  px : Px
deriving DecidableEq, Repr

def BookRecord.isChange {Px : Type} (r : BookRecord Px) : Bool := r.action = 1

/-- The trade record of a use. -/
def Use.trade : Use Px Pl → Option (Trade Px Pl)
  | .call c => c.trade
  | .clear => none

/-- The Change or Delete record of a use. -/
def Use.record : Use Px Pl → Option (BookRecord Px)
  | .call (.onBook oid _ action px) =>
      if action = 1 ∨ action = 2 then some ⟨oid, action, px⟩ else none
  | _ => none

def tradesOf (us : List (Use Px Pl)) : List (Trade Px Pl) := us.filterMap Use.trade

def recordsOf (us : List (Use Px Pl)) : List (BookRecord Px) := us.filterMap Use.record

/-- The first Change or Delete of each listed order. -/
def ownRecords (ts : List (Trade Px Pl)) (rs : List (BookRecord Px)) : List (BookRecord Px) :=
  firsts BookRecord.oid (rs.filter fun r => r.oid ∈ ts.map Trade.oid)

/-- No trade record comes after a Change or a Delete. -/
def TradesFirst (us : List (Use Px Pl)) : Prop :=
  us.Pairwise fun u v => u.record ≠ none → v.trade = none

instance decidableTradesFirst (us : List (Use Px Pl)) : Decidable (TradesFirst us) :=
  inferInstanceAs (Decidable (us.Pairwise fun u v => u.record ≠ none → v.trade = none))

/-! ### The rules -/

def ASide.isDecided : ASide → Bool
  | .unknown => false
  | _ => true

/-- One buy against one sell.  A Change that moves the price is the aggressor's, one that keeps it
    the resting order's.  With none, the order at the touch is the resting one, if the other one is
    not at the touch. -/
def oneVsOne (samePx : Px → Px → Bool) (b a : Trade Px Pl) (own : List (BookRecord Px)) : ASide :=
  match own.find? BookRecord.isChange with
  | some r =>
      let order := if r.oid = b.oid then b else a
      .side (if samePx r.px order.px then order.side.other else order.side)
  | none =>
      if b.atTouch = a.atTouch then .unknown
      else .side (if b.atTouch then .sel else .buy)

/-- The side of the aggressor, from the orders of each side and the own records so far. -/
def table (samePx : Px → Px → Bool) (ts : List (Trade Px Pl)) (own : List (BookRecord Px)) :
    ASide :=
  match listedOn ts .buy, listedOn ts .sel with
  | [], _ => .none
  | _, [] => .none
  | [b], [a] => oneVsOne samePx b a own
  | [_], _ => .side .buy
  | _, [_] => .side .sel
  | _, _ => .none

/-- The decision, taken at the first own record that settles it. -/
def decision (samePx : Px → Px → Bool) (ts : List (Trade Px Pl)) (own : List (BookRecord Px)) :
    ASide :=
  ((own.inits.tail.map (table samePx ts)).find? ASide.isDecided).getD .unknown

/-- The verdict at the close, where a transaction without an own record is decided too. -/
def closing (samePx : Px → Px → Bool) (ts : List (Trade Px Pl)) (own : List (BookRecord Px)) :
    ASide :=
  if decision samePx ts own = .unknown then table samePx ts own else decision samePx ts own

/-- A 1 vs 1 that no Change and no touch flag settles. -/
def Unsettled (ts : List (Trade Px Pl)) (own : List (BookRecord Px)) : Prop :=
  ∃ b a, listedOn ts .buy = [b] ∧ listedOn ts .sel = [a] ∧ b.atTouch = a.atTouch ∧
    ∀ r ∈ own, r.action ≠ 1

/-- The fills of the transaction that are released have the roles of a decision, and are ambiguous
    only where nothing settles it. -/
def ByRules (tx : ℕ) (ts : List (Trade Px Pl)) (own : List (BookRecord Px)) (d : ASide)
    (o : List (Released Px Pl)) : Prop :=
  ∀ r ∈ o, r.fill.tx = tx →
    r.role = d.role r.fill.side ∧ (r.role = .ambiguous → Unsettled ts own)

theorem isDecided_iff : d.isDecided = true ↔ d ≠ .unknown := by
  cases d with
  | unknown => exact ⟨nofun, fun h => absurd rfl h⟩
  | none => exact ⟨fun _ => nofun, fun _ => rfl⟩
  | side a => exact ⟨fun _ => nofun, fun _ => rfl⟩

theorem oneVsOne_eq_unknown {b a : Trade Px Pl} {own : List (BookRecord Px)} :
    oneVsOne samePx b a own = .unknown ↔
      b.atTouch = a.atTouch ∧ ∀ r ∈ own, r.action ≠ 1 := by
  unfold oneVsOne
  rcases hfind : own.find? BookRecord.isChange with _ | r
  · have hnone : ∀ r ∈ own, r.action ≠ 1 :=
      fun r hr heq => List.find?_eq_none.mp hfind r hr (decide_eq_true heq)
    dsimp only
    by_cases htouch : b.atTouch = a.atTouch
    · rw [if_pos htouch]
      exact ⟨fun _ => ⟨htouch, hnone⟩, fun _ => rfl⟩
    · rw [if_neg htouch]
      exact ⟨nofun, fun h => absurd h.1 htouch⟩
  · have hchange : r.isChange = true := List.find?_some hfind
    exact ⟨nofun, fun h => absurd (of_decide_eq_true hchange)
      (h.2 r (List.mem_of_find?_eq_some hfind))⟩

theorem table_eq_unknown {own : List (BookRecord Px)} :
    table samePx ts own = .unknown ↔ Unsettled ts own := by
  unfold table Unsettled
  rcases listedOn ts .buy with _ | ⟨b, _ | ⟨b', bs⟩⟩ <;>
    rcases listedOn ts .sel with _ | ⟨a, _ | ⟨a', as⟩⟩
  case cons.nil.cons.nil =>
    dsimp only
    rw [oneVsOne_eq_unknown]
    refine ⟨fun h => ⟨b, a, rfl, rfl, h⟩, ?_⟩
    rintro ⟨_, _, hb, ha, h⟩
    cases hb
    cases ha
    exact h
  -- in the other cases there is no 1 vs 1
  all_goals simp

/-- A decision that is open is taken at the next own record, if the table settles it. -/
theorem decision_concat (own : List (BookRecord Px)) (r : BookRecord Px) :
    decision samePx ts (own ++ [r]) =
      if decision samePx ts own = .unknown then table samePx ts (own ++ [r])
      else decision samePx ts own := by
  have hinits : (own ++ [r]).inits.tail = own.inits.tail ++ [own ++ [r]] := by
    rw [List.inits_append, List.tail_append_of_ne_nil]
    · rfl
    · cases own <;> exact List.cons_ne_nil _ _
  unfold decision
  rw [hinits, List.map_append, List.find?_append]
  rcases hfind : (own.inits.tail.map (table samePx ts)).find? ASide.isDecided with _ | d
  · rw [Option.none_or, Option.getD_none, if_pos rfl, List.map_singleton]
    rcases htable : table samePx ts (own ++ [r]) with _ | _ | a <;> rfl
  · rw [Option.some_or, Option.getD_some, if_neg (isDecided_iff.mp (List.find?_some hfind))]

/-- While the decision is open after an own record, the table does not settle it. -/
theorem unsettled_of_decision {own : List (BookRecord Px)} (hown : own ≠ [])
    (h : decision samePx ts own = .unknown) : Unsettled ts own := by
  obtain ⟨rest, r, rfl⟩ := (List.eq_nil_or_concat' own).resolve_left hown
  rw [decision_concat] at h
  by_cases hrest : decision samePx ts rest = .unknown
  · rw [if_pos hrest] at h
    exact table_eq_unknown.mp h
  · rw [if_neg hrest] at h
    exact absurd h hrest

/-! ### The slate follows the rules -/

/-- The slate has the trades `ts` of the open transaction, and has been told of the records `rs`. -/
structure Represents (samePx : Px → Px → Bool) (ts : List (Trade Px Pl)) (rs : List (BookRecord Px))
    (s : Slate Px Pl) : Prop where
  txOpen : s.txOpen = true
  trades : s.trades = ts
  seen : ∀ oid o, s.idx.lookup oid = some o →
    (o.seen = true ↔ oid ∈ (ownRecords ts rs).map BookRecord.oid)
  aside : s.aside = decision samePx ts (ownRecords ts rs)
  undecided : s.aside = .unknown →
    s.movedSide = none ∧ s.keptSide = none ∧ ∀ r ∈ ownRecords ts rs, r.action ≠ 1

/-- What `compute_side` returns with one order on each side. -/
def Slate.duel (s : Slate Px Pl) : ASide :=
  match s.movedSide, s.keptSide with
  | some m, _ => .side m
  | none, some k => .side k.other
  | none, none =>
      if s.buyAtTouch ≠ s.selAtTouch then .side (if s.buyAtTouch then .sel else .buy) else .unknown

/-- `compute_side` is the table, if it is so for one order on each side. -/
theorem computeSide_eq_table (hs : s.Counted) {own : List (BookRecord Px)}
    (hduel : ∀ b a, listedOn s.trades .buy = [b] → listedOn s.trades .sel = [a] →
      s.duel = oneVsOne samePx b a own) : s.computeSide = table samePx s.trades own := by
  have hb : s.nb = _ := hs.orders .buy
  have ha : s.ns = _ := hs.orders .sel
  unfold Slate.computeSide table
  rw [hb, ha]
  rcases hbuy : listedOn s.trades .buy with _ | ⟨b, _ | ⟨b', bs⟩⟩ <;>
    rcases hsel : listedOn s.trades .sel with _ | ⟨a, _ | ⟨a', as⟩⟩
  case cons.nil.cons.nil => exact hduel b a hbuy hsel
  all_goals simp

/-- Without a Change the touch flags decide. -/
theorem duel_of_unchanged (hs : s.Counted) (hmoved : s.movedSide = none) (hkept : s.keptSide = none)
    {own : List (BookRecord Px)} (hown : ∀ r ∈ own, r.action ≠ 1) {b a : Trade Px Pl}
    (hb : listedOn s.trades .buy = [b]) (ha : listedOn s.trades .sel = [a]) :
    s.duel = oneVsOne samePx b a own := by
  have hbuy : s.buyAtTouch = b.atTouch := hs.touch .buy b hb
  have hsel : s.selAtTouch = a.atTouch := hs.touch .sel a ha
  have hnone : own.find? BookRecord.isChange = none :=
    List.find?_eq_none.mpr fun r hr heq => hown r hr (of_decide_eq_true heq)
  unfold Slate.duel oneVsOne
  rw [hmoved, hkept, hnone, hbuy, hsel, ite_not]

/-- An order that is in the index has its first listing there. -/
theorem exists_first (hidx : s.Indexed) {oid : ℕ} {o : Ord} (ho : s.idx.lookup oid = some o) :
    ∃ f, s.fills[o.first]? = some f ∧ f.oid = oid ∧ f.toTrade ∈ firsts Trade.oid s.trades := by
  obtain ⟨hget, hbefore⟩ := hidx.of_lookup_some ho
  unfold Slate.oids at hget
  rw [List.getElem?_map] at hget
  obtain ⟨f, hf, hoid⟩ := Option.map_eq_some_iff.mp hget
  refine ⟨f, hf, hoid, mem_firsts.mpr ?_⟩
  have htrade : s.trades[o.first]? = some f.toTrade := by
    unfold Slate.trades
    rw [List.getElem?_map, hf]
    rfl
  obtain ⟨hlt, hfirst⟩ := List.getElem?_eq_some_iff.mp htrade
  refine List.find?_eq_some_iff_getElem.mpr ⟨decide_eq_true rfl, o.first, hlt, hfirst, ?_⟩
  intro j hj
  have hjlt : j < s.trades.length := hj.trans hlt
  rw [Bool.not_eq_true', decide_eq_false_iff_not]
  intro heq
  refine hbefore j hj ?_
  have hoids : s.oids = s.trades.map Trade.oid := List.map_map.symm
  rw [hoids, List.getElem?_map, List.getElem?_eq_getElem hjlt]
  exact congrArg some (heq.trans hoid)

/-- The first Change decides. -/
theorem duel_of_change (hidx : s.Indexed) {oid : ℕ} {o : Ord} (ho : s.idx.lookup oid = some o)
    (hmoved : s.movedSide = none) {own : List (BookRecord Px)} (hown : ∀ r ∈ own, r.action ≠ 1)
    (px : Px) {b a : Trade Px Pl} (hb : listedOn s.trades .buy = [b])
    (ha : listedOn s.trades .sel = [a]) :
    (s.noted samePx oid 1 px o).duel = oneVsOne samePx b a (own ++ [⟨oid, 1, px⟩]) := by
  obtain ⟨f, hf, hoid, hfirst⟩ := exists_first hidx ho
  have hbmem := mem_listedOn.mp (hb ▸ List.mem_singleton_self b)
  have hamem := mem_listedOn.mp (ha ▸ List.mem_singleton_self a)
  have horder : (if oid = b.oid then b else a) = f.toTrade := by
    rcases hside : f.side with _ | _
    · have hmem : f.toTrade ∈ listedOn s.trades .buy := mem_listedOn.mpr ⟨hfirst, hside⟩
      have hfb : f.toTrade = b := List.mem_singleton.mp (hb ▸ hmem)
      rw [← hfb, if_pos hoid.symm]
    · have hmem : f.toTrade ∈ listedOn s.trades .sel := mem_listedOn.mpr ⟨hfirst, hside⟩
      have hfa : f.toTrade = a := List.mem_singleton.mp (ha ▸ hmem)
      have hne : oid ≠ b.oid := by
        intro heq
        have hfb := eq_of_mem_firsts hfirst hbmem.1 (hoid.trans heq)
        have hside' := congrArg Trade.side hfb
        rw [hbmem.2] at hside'
        rw [hside'] at hside
        cases hside
      rw [if_neg hne, hfa]
  have hfind : (own ++ [(⟨oid, 1, px⟩ : BookRecord Px)]).find? BookRecord.isChange =
      some ⟨oid, 1, px⟩ := by
    have hnone : own.find? BookRecord.isChange = none :=
      List.find?_eq_none.mpr fun r hr heq => hown r hr (of_decide_eq_true heq)
    rw [List.find?_append, hnone]
    rfl
  unfold Slate.noted oneVsOne
  rw [hfind, hf]
  dsimp only
  rw [if_pos rfl, horder]
  by_cases hsame : samePx px f.px = true
  · rw [if_pos hsame, if_pos hsame]
    unfold Slate.duel
    dsimp only
    rw [hmoved]
  · rw [if_neg hsame, if_neg hsame]
    rfl

/-! ### Records of the transaction -/

theorem ownRecords_concat (rs : List (BookRecord Px)) (r : BookRecord Px) :
    ownRecords ts (rs ++ [r]) = ownRecords ts rs ++
      if r.oid ∈ ts.map Trade.oid ∧ r.oid ∉ (ownRecords ts rs).map BookRecord.oid then [r]
      else [] := by
  unfold ownRecords
  rw [List.filter_append]
  by_cases hlisted : r.oid ∈ ts.map Trade.oid
  · rw [List.filter_cons_of_pos (p := fun r : BookRecord Px => r.oid ∈ ts.map Trade.oid)
      (decide_eq_true hlisted), List.filter_nil, firsts_concat]
    simp only [mem_map_firsts, hlisted, true_and, ite_not]
  · rw [List.filter_cons_of_neg (p := fun r : BookRecord Px => r.oid ∈ ts.map Trade.oid)
      fun h => hlisted (of_decide_eq_true h), List.filter_nil, List.append_nil,
      if_neg fun h => hlisted h.1, List.append_nil]

theorem noted_of_delete (samePx : Px → Px → Bool) (s : Slate Px Pl) (oid : ℕ) (px : Px) (o : Ord) :
    (s.noted samePx oid 2 px o).movedSide = s.movedSide ∧
      (s.noted samePx oid 2 px o).keptSide = s.keptSide := by
  unfold Slate.noted
  rcases s.fills[o.first]? with _ | f <;> exact ⟨rfl, rfl⟩

/-- The verdict after an own record is that of the rules. -/
theorem noted_verdict_eq (hs : s.Exact) {rs : List (BookRecord Px)} (h : Represents samePx ts rs s)
    {oid action : ℕ} (haction : action = 1 ∨ action = 2) (px : Px) {o : Ord}
    (ho : s.idx.lookup oid = some o) :
    (s.noted samePx oid action px o).verdict =
      decision samePx ts (ownRecords ts rs ++ [⟨oid, action, px⟩]) := by
  obtain ⟨hfills, -, -, haside⟩ := noted_frame samePx s oid action px o
  have htrades : (s.noted samePx oid action px o).trades = s.trades :=
    congrArg (List.map Fill.toTrade) hfills
  rw [decision_concat, ← h.aside]
  unfold Slate.verdict
  rw [haside]
  by_cases hunknown : s.aside = .unknown
  · obtain ⟨hmoved, hkept, hnone⟩ := h.undecided hunknown
    have hcounted := noted_counted samePx hs.counted oid action px o
    rw [if_pos hunknown, if_pos hunknown]
    refine (computeSide_eq_table hcounted fun b a hb ha => ?_).trans
      (by rw [htrades, h.trades])
    rcases haction with rfl | rfl
    · rw [htrades] at hb ha
      exact duel_of_change hs.indexed ho hmoved hnone px hb ha
    · obtain ⟨hmoved', hkept'⟩ := noted_of_delete samePx s oid px o
      refine duel_of_unchanged hcounted (hmoved'.trans hmoved) (hkept'.trans hkept) ?_ hb ha
      intro r hr
      rcases List.mem_append.mp hr with hr | hr
      · exact hnone r hr
      · rw [List.mem_singleton.mp hr]
        exact Nat.succ_ne_self 1
  · rw [if_neg hunknown, if_neg hunknown]

/-- An own record. -/
theorem noted_represents (hs : s.Exact) {rs : List (BookRecord Px)} (h : Represents samePx ts rs s)
    {oid action : ℕ} (haction : action = 1 ∨ action = 2) (px : Px) {o : Ord}
    (ho : s.idx.lookup oid = some o)
    (hown : ownRecords ts (rs ++ [⟨oid, action, px⟩]) = ownRecords ts rs ++ [⟨oid, action, px⟩]) :
    Represents samePx ts (rs ++ [⟨oid, action, px⟩])
      (s.noted samePx oid action px o).settle := by
  obtain ⟨hfills, hopen, -, haside⟩ := noted_frame samePx s oid action px o
  have hidx := (noted_seen samePx s oid action px o).1
  have hverdict := noted_verdict_eq hs h haction px ho
  constructor
  · exact hopen.trans h.txOpen
  · exact (congrArg (List.map Fill.toTrade) hfills).trans h.trades
  · intro oid' o' ho'
    change (s.noted samePx oid action px o).idx.lookup oid' = some o' at ho'
    rw [hidx] at ho'
    rw [hown, List.map_append, List.mem_append]
    by_cases hoid : oid' = oid
    · rw [hoid, AList.lookup_insert] at ho'
      cases ho'
      rw [hoid]
      exact ⟨fun _ => .inr (List.mem_singleton_self _), fun _ => rfl⟩
    · rw [AList.lookup_insert_ne hoid] at ho'
      rw [h.seen oid' o' ho']
      exact ⟨.inl, fun hmem => hmem.resolve_right fun h => hoid (List.mem_singleton.mp h)⟩
  · rw [hown]
    exact hverdict
  · intro hunknown
    -- a Change would have settled it
    have hdecision := hverdict.symm.trans hunknown
    obtain ⟨-, -, -, -, -, hnone⟩ :=
      unsettled_of_decision (List.append_ne_nil_of_right_ne_nil _ (List.cons_ne_nil _ _)) hdecision
    have haction' : action = 2 := haction.resolve_left
      (hnone _ (List.mem_append_right _ (List.mem_singleton_self _)))
    subst haction'
    obtain ⟨hmoved, hkept⟩ := noted_of_delete samePx s oid px o
    have hbefore : s.aside = .unknown := by
      by_contra hne
      have hfixed : (s.noted samePx oid 2 px o).verdict = s.aside :=
        (if_neg (haside ▸ hne)).trans haside
      exact hne (hfixed.symm.trans hunknown)
    obtain ⟨hmoved₀, hkept₀, -⟩ := h.undecided hbefore
    rw [hown]
    exact ⟨hmoved.trans hmoved₀, hkept.trans hkept₀, hnone⟩

theorem ReleasesAs.represents {rs : List (BookRecord Px)} (h : ReleasesAs d s s' o)
    (hs : Represents samePx ts rs s) : Represents samePx ts rs s' where
  txOpen := (of_facts Slate.txOpen h.facts fun _ => rfl).trans hs.txOpen
  trades := h.trades.trans hs.trades
  seen := by
    rw [of_facts Slate.idx h.facts fun _ => rfl]
    exact hs.seen
  aside := (of_facts Slate.aside h.facts fun _ => rfl).trans hs.aside
  undecided := by
    rw [of_facts Slate.aside h.facts fun _ => rfl, of_facts Slate.movedSide h.facts fun _ => rfl,
      of_facts Slate.keptSide h.facts fun _ => rfl]
    exact hs.undecided

theorem Represents.of_own {rs rs' : List (BookRecord Px)} (h : Represents samePx ts rs s)
    (hown : ownRecords ts rs' = ownRecords ts rs) : Represents samePx ts rs' s where
  txOpen := h.txOpen
  trades := h.trades
  seen := by
    rw [hown]
    exact h.seen
  aside := by
    rw [hown]
    exact h.aside
  undecided := by
    rw [hown]
    exact h.undecided

/-- A book record of the open transaction.  Something goes out only at an own record. -/
theorem onBook_represents (hs : s.Exact) {rs : List (BookRecord Px)}
    (h : Represents samePx ts rs s) (oid action : ℕ) (px : Px) :
    Represents samePx ts (rs ++ recordsOf [(.call (.onBook oid s.tx action px) : Use Px Pl)])
        (s.onBook samePx oid s.tx action px).1 ∧
      ((s.onBook samePx oid s.tx action px).2 = [] ∨
        ownRecords ts (rs ++ recordsOf [(.call (.onBook oid s.tx action px) : Use Px Pl)]) ≠
          []) := by
  have hlisted : s.idx.lookup oid = none ↔ oid ∉ ts.map Trade.oid :=
    h.trades ▸ hs.indexed.lookup_eq_none
  by_cases haction : action = 1 ∨ action = 2
  · have hrecord : recordsOf [(.call (.onBook oid s.tx action px) : Use Px Pl)] =
        [⟨oid, action, px⟩] := by
      dsimp only [recordsOf, Use.record, List.filterMap]
      rw [if_pos haction]
    have hconcat := @ownRecords_concat _ _ ts rs ⟨oid, action, px⟩
    rw [hrecord]
    rcases onBook_cases samePx h.txOpen rfl oid action px with ⟨heq, hwhy⟩ | ⟨o, -, ho, hseen, heq⟩
    · -- the order is not listed, or its own record has come
      have hold : ¬ (oid ∈ ts.map Trade.oid ∧ oid ∉ (ownRecords ts rs).map BookRecord.oid) := by
        rintro ⟨hmem, hnot⟩
        rcases hwhy with hne | hnone | ⟨o, ho, hseen⟩
        · exact haction.elim hne.1 hne.2
        · exact hlisted.mp hnone hmem
        · exact hnot ((h.seen oid o ho).mp hseen)
      rw [if_neg hold, List.append_nil] at hconcat
      rw [heq]
      exact ⟨h.of_own hconcat, .inl rfl⟩
    · have hnew : oid ∈ ts.map Trade.oid ∧ oid ∉ (ownRecords ts rs).map BookRecord.oid := by
        constructor
        · by_contra hmem
          rw [hlisted.mpr hmem] at ho
          cases ho
        · rw [← h.seen oid o ho, hseen]
          decide
      rw [if_pos hnew] at hconcat
      rw [heq]
      refine ⟨(decide_as _ _).represents (noted_represents hs h haction px ho hconcat), .inr ?_⟩
      rw [hconcat]
      exact List.append_ne_nil_of_right_ne_nil _ (List.cons_ne_nil _ _)
  · have hnone : recordsOf [(.call (.onBook oid s.tx action px) : Use Px Pl)] = [] := by
      dsimp only [recordsOf, Use.record, List.filterMap]
      rw [if_neg haction]
    have heq : s.onBook samePx oid s.tx action px = (s, []) := by
      rcases onBook_cases samePx h.txOpen rfl oid action px with ⟨heq, -⟩ | ⟨o, hyes, -⟩
      · exact heq
      · exact absurd hyes haction
    rw [hnone, List.append_nil, heq]
    exact ⟨h, .inl rfl⟩

/-! ### Trade records of the transaction -/

/-- A slate that has no decision and no own record stores the trade and releases nothing. -/
theorem onTrade_represents (samePx : Px → Px → Bool) {t : Trade Px Pl}
    (hadvance : s.advance t.tx = (s, []))
    (haside : s.aside = .unknown) (hmoved : s.movedSide = none) (hkept : s.keptSide = none)
    (hseen : ∀ oid o, s.idx.lookup oid = some o → o.seen = false) :
    Represents samePx (s.trades ++ [t]) [] (s.onTrade t).1 ∧ (s.onTrade t).2 = [] := by
  obtain ⟨haside', -, -, hmoved', hkept'⟩ := indexFill_aside (s.pushFill t) t s.fills.length
  have hstay : ((s.pushFill t).indexFill t s.fills.length).releaseIfDecided t.oid s.fills.length =
      ((s.pushFill t).indexFill t s.fills.length, []) := by
    unfold Slate.releaseIfDecided
    split
    · rw [if_neg fun h => h.1 (haside'.trans haside)]
    · rfl
  have hstep : s.onTrade t = ((s.pushFill t).indexFill t s.fills.length, []) := by
    unfold Slate.onTrade
    rw [hadvance]
    dsimp only
    rw [hstay]
    rfl
  rw [hstep]
  refine ⟨?_, rfl⟩
  constructor
  · exact (indexFill_frame (s.pushFill t) t s.fills.length).2.2.2.2
  · exact indexFill_trades s t _
  · intro oid o ho
    have hnot : ¬ o.seen = true := by
      intro htrue
      obtain ⟨o', ho', hseen'⟩ := indexFill_seen s t ho htrue
      rw [hseen oid o' ho'] at hseen'
      cases hseen'
    exact ⟨fun h => absurd h hnot, fun h => (List.not_mem_nil h).elim⟩
  · exact haside'.trans haside
  · exact fun _ => ⟨hmoved'.trans hmoved, hkept'.trans hkept,
      fun r hr => (List.not_mem_nil hr).elim⟩

/-! ### Runs -/

/-- After the uses `us` of a transaction: no trade of it has come and it is not open, or the slate
    represents it. -/
structure Told (samePx : Px → Px → Bool) (tx : ℕ) (us : List (Use Px Pl)) (s : Slate Px Pl) :
    Prop where
  exact : s.Exact
  told : (tradesOf us = [] ∧ ¬ (s.txOpen = true ∧ s.tx = tx)) ∨
    s.tx = tx ∧ Represents samePx (tradesOf us) (recordsOf us) s

theorem tradesOf_concat (us : List (Use Px Pl)) (u : Use Px Pl) :
    tradesOf (us ++ [u]) = tradesOf us ++ tradesOf [u] := List.filterMap_append

theorem recordsOf_concat (us : List (Use Px Pl)) (u : Use Px Pl) :
    recordsOf (us ++ [u]) = recordsOf us ++ recordsOf [u] := List.filterMap_append

/-- A trade record comes before all own records. -/
theorem TradesFirst.records_nil {us : List (Use Px Pl)} {t : Trade Px Pl}
    (h : TradesFirst (us ++ [.call (.onTrade t)])) : recordsOf us = [] := by
  refine List.filterMap_eq_nil_iff.mpr fun u hu => ?_
  by_contra hne
  have hnone := (List.pairwise_append.mp h).2.2 u hu _ (List.mem_singleton_self _) hne
  cases hnone

theorem TradesFirst.trades_nil {us vs : List (Use Px Pl)} (h : TradesFirst (us ++ vs))
    (hrecords : recordsOf us ≠ []) : tradesOf vs = [] := by
  refine List.filterMap_eq_nil_iff.mpr fun v hv => ?_
  obtain ⟨r, hr⟩ := List.exists_mem_of_ne_nil _ hrecords
  obtain ⟨u, hu, hrecord⟩ := List.mem_filterMap.mp hr
  refine (List.pairwise_append.mp h).2.2 u hu v hv ?_
  rw [hrecord]
  exact Option.some_ne_none r

theorem TradesFirst.of_append {us vs : List (Use Px Pl)} (h : TradesFirst (us ++ vs)) :
    TradesFirst us := (List.pairwise_append.mp h).1

/-- A use of a transaction that is not open leaves the slate closed before it looks at the
    transaction. -/
theorem advance_closed {tx : ℕ} (h : ¬ (s.txOpen = true ∧ s.tx = tx)) :
    (s.advance tx).1.txOpen = false := by
  rcases hopen : s.txOpen with _ | _
  · rw [advance_of_closed hopen]
    exact hopen
  · rw [advance_of_ne hopen fun heq => h ⟨hopen, heq.symm⟩]
    exact closeTx_txOpen s

/-- The first trade record of a transaction. -/
theorem first_trade (hs : s.Exact) {t : Trade Px Pl} (h : ¬ (s.txOpen = true ∧ s.tx = t.tx)) :
    Represents samePx [t] [] (s.onTrade t).1 := by
  have hclosed := advance_closed h
  have hm : (s.advance t.tx).1.Exact := use_exact samePx hs (.call (.advance t.tx))
  have hidle := hm.sound.idle hclosed
  have hstep : (s.onTrade t).1 = ((s.advance t.tx).1.onTrade t).1 := by
    unfold Slate.onTrade
    rw [advance_of_closed hclosed]
  have htrades : (s.advance t.tx).1.trades = [] := congrArg (List.map Fill.toTrade) hidle.fills
  have hseen : ∀ oid o, (s.advance t.tx).1.idx.lookup oid = some o → o.seen = false := by
    intro oid o ho
    have hnot : oid ∉ (s.advance t.tx).1.trades.map Trade.oid := by
      rw [htrades]
      exact List.not_mem_nil
    rw [hm.indexed.lookup_eq_none.mpr hnot] at ho
    cases ho
  have hrep := (onTrade_represents samePx (advance_of_closed hclosed t.tx)
    hidle.aside hidle.movedSide hidle.keptSide hseen).1
  rw [htrades] at hrep
  rw [hstep]
  exact hrep

/-- The transaction is not open. -/
theorem call_told_first {tx : ℕ} {us : List (Use Px Pl)} {c : Call Px Pl} (hs : s.Exact)
    (hnone : tradesOf us = []) (hother : ¬ (s.txOpen = true ∧ s.tx = tx)) (hc : c.tx = some tx)
    (horder : TradesFirst (us ++ [.call c])) :
    Told samePx tx (us ++ [.call c]) (s.call samePx c).1 := by
  have hclosed : ∀ m : Slate Px Pl, m.txOpen = false → ¬ (m.txOpen = true ∧ m.tx = tx) := by
    intro m hm h
    rw [hm] at h
    cases h.1
  refine ⟨use_exact samePx hs (.call c), ?_⟩
  rw [tradesOf_concat, hnone]
  cases c with
  | advance tx' =>
      cases hc
      exact .inl ⟨rfl, hclosed _ (advance_closed hother)⟩
  | onTrade t =>
      cases hc
      rw [recordsOf_concat, horder.records_nil]
      exact .inr ⟨onTrade_tx s t, first_trade hs hother⟩
  | onBook oid tx' action px =>
      cases hc
      refine .inl ⟨rfl, hclosed _ ?_⟩
      change (s.onBook samePx oid tx action px).1.txOpen = false
      rcases hopen : s.txOpen with _ | _
      · rw [onBook_of_closed samePx hopen]
        exact hopen
      · rw [onBook_of_ne samePx hopen fun heq => hother ⟨hopen, heq.symm⟩]
        exact closeTx_txOpen s
  | flush => cases hc

/-- The transaction is open. -/
theorem call_told_open {us : List (Use Px Pl)} {c : Call Px Pl} (hs : s.Exact)
    (hrep : Represents samePx (tradesOf us) (recordsOf us) s) (hc : c.tx = some s.tx)
    (horder : TradesFirst (us ++ [.call c])) :
    Represents samePx (tradesOf (us ++ [.call c])) (recordsOf (us ++ [.call c]))
        (s.call samePx c).1 ∧
      ((s.call samePx c).2 = [] ∨
        ownRecords (tradesOf (us ++ [.call c])) (recordsOf (us ++ [.call c])) ≠ []) := by
  rw [tradesOf_concat, recordsOf_concat]
  cases c with
  | advance tx =>
      have hstay : s.advance tx = (s, []) := if_neg fun h => h.2 (Option.some.inj hc)
      change Represents samePx (tradesOf us ++ []) (recordsOf us ++ []) (s.advance tx).1 ∧
        ((s.advance tx).2 = [] ∨ _)
      rw [hstay, List.append_nil, List.append_nil]
      exact ⟨hrep, .inl rfl⟩
  | onTrade t =>
      have hstay : s.advance t.tx = (s, []) := if_neg fun h => h.2 (Option.some.inj hc)
      rw [horder.records_nil] at hrep ⊢
      have hunknown : s.aside = .unknown := hrep.aside
      obtain ⟨hmoved, hkept, -⟩ := hrep.undecided hunknown
      have hseen : ∀ oid o, s.idx.lookup oid = some o → o.seen = false :=
        fun oid o ho => Bool.eq_false_iff.mpr fun h => List.not_mem_nil ((hrep.seen oid o ho).mp h)
      obtain ⟨hnext, hout⟩ :=
        onTrade_represents samePx hstay hunknown hmoved hkept hseen
      rw [hrep.trades] at hnext
      exact ⟨hnext, .inl hout⟩
  | onBook oid tx action px =>
      cases Option.some.inj hc
      have hnext := onBook_represents hs hrep oid action px
      have htrades : tradesOf [(.call (.onBook oid s.tx action px) : Use Px Pl)] = [] := rfl
      rw [htrades, List.append_nil]
      exact hnext
  | flush => cases hc

/-- **Each use of a transaction** is told to the slate; what goes out of the transaction goes out
    at an own record or after it, by the rules. -/
theorem use_told (samePx : Px → Px → Bool) {tx : ℕ} {us : List (Use Px Pl)} {u : Use Px Pl}
    (hs : Told samePx tx us s) (hu : u.tx = some tx) (horder : TradesFirst (us ++ [u])) :
    Told samePx tx (us ++ [u]) (s.use samePx u).1 ∧
      ((∀ r ∈ (s.use samePx u).2, r.fill.tx ≠ tx) ∨
        ownRecords (tradesOf (us ++ [u])) (recordsOf (us ++ [u])) ≠ [] ∧
        ByRules tx (tradesOf (us ++ [u]))
          (ownRecords (tradesOf (us ++ [u])) (recordsOf (us ++ [u])))
          (decision samePx (tradesOf (us ++ [u]))
            (ownRecords (tradesOf (us ++ [u])) (recordsOf (us ++ [u])))) (s.use samePx u).2) := by
  cases u with
  | clear => cases hu
  | call c =>
      rcases hs.told with ⟨hnone, hother⟩ | ⟨htx, hrep⟩
      · refine ⟨call_told_first hs.exact hnone hother hu horder, .inl fun r hr htx => ?_⟩
        obtain ⟨hopen, hstx⟩ := use_released_tx hs.exact.sound (.call c) r hr
        exact hother ⟨hopen, hstx.symm.trans htx⟩
      · subst htx
        obtain ⟨hnext, hout⟩ := call_told_open hs.exact hrep hu horder
        have hgoes : Goes s (s.call samePx c).1 (s.call samePx c).2 := call_goes hrep.txOpen hu
        refine ⟨⟨use_exact samePx hs.exact (.call c), .inr ⟨hgoes.tx, hnext⟩⟩, ?_⟩
        rcases hout with hnil | hown
        · left
          change ∀ r ∈ (s.call samePx c).2, r.fill.tx ≠ s.tx
          rw [hnil]
          exact fun r hr => (List.not_mem_nil hr).elim
        · refine .inr ⟨hown, fun r hr _ => ?_⟩
          have hrole := hgoes.roles r hr
          rw [hnext.aside] at hrole
          exact ⟨hrole, fun hambiguous => unsettled_of_decision hown
            (ASide.role_eq_ambiguous.mp (hrole.symm.trans hambiguous))⟩

/-- The use after a transaction closes it with its verdict. -/
theorem close_by_rules (samePx : Px → Px → Bool) {tx : ℕ} {us : List (Use Px Pl)} {u : Use Px Pl}
    (hs : Told samePx tx us s) (hu : u.tx ≠ some tx) :
    ByRules tx (tradesOf us) (ownRecords (tradesOf us) (recordsOf us))
      (closing samePx (tradesOf us) (ownRecords (tradesOf us) (recordsOf us)))
      (s.use samePx u).2 := by
  intro r hr htx
  obtain ⟨hopen, hstx⟩ := use_released_tx hs.exact.sound u r hr
  rcases hs.told with ⟨-, hother⟩ | ⟨htold, hrep⟩
  · exact absurd ⟨hopen, hstx.symm.trans htx⟩ hother
  · have hrole := (closeTx_roles s r
      (use_ends hs.exact.sound (fun _ => htold ▸ hu) r hr).2).1
    have hverdict : s.verdict =
        closing samePx (tradesOf us) (ownRecords (tradesOf us) (recordsOf us)) := by
      unfold Slate.verdict closing
      rw [← hrep.aside]
      by_cases hunknown : s.aside = .unknown
      · obtain ⟨hmoved, hkept, hnone⟩ := hrep.undecided hunknown
        rw [if_pos hunknown, if_pos hunknown, computeSide_eq_table hs.exact.counted
          fun b a hb ha => duel_of_unchanged hs.exact.counted hmoved hkept hnone hb ha, hrep.trades]
      · rw [if_neg hunknown, if_neg hunknown]
    rw [hverdict] at hrole
    refine ⟨hrole, fun hambiguous => (@table_eq_unknown _ _ samePx _ _).mp ?_⟩
    have hclosing := ASide.role_eq_ambiguous.mp (hrole.symm.trans hambiguous)
    unfold closing at hclosing
    split at hclosing
    next => exact hclosing
    next hne => exact absurd hclosing hne

/-- A call of another transaction does not leave this one open. -/
theorem not_open_of_use (samePx : Px → Px → Bool) {tx : ℕ} {u : Use Px Pl} (hu : u.tx ≠ some tx) :
    ¬ ((s.use samePx u).1.txOpen = true ∧ (s.use samePx u).1.tx = tx) := by
  cases u with
  | clear => exact fun h => by cases h.1
  | call c =>
      rintro ⟨hopen', htx'⟩
      change (s.call samePx c).1.txOpen = true at hopen'
      change (s.call samePx c).1.tx = tx at htx'
      have hc : c.tx ≠ some tx := hu
      rcases call_tx s c hopen' with ⟨hopen, htx⟩ | htx
      · have hother : c.tx ≠ some s.tx := htx.symm.trans htx' ▸ hc
        rw [call_of_other_tx hopen hother] at hopen' htx'
        rcases call_tx s.closeTx.1 c hopen' with ⟨hfalse, -⟩ | heq
        · rw [closeTx_txOpen] at hfalse
          cases hfalse
        · exact hc (heq.trans (congrArg some htx'))
      · exact hc (htx.trans (congrArg some htx'))

/-- At its start a transaction is not open. -/
theorem not_open_of_start {mode : Release} {before : List (Use Px Pl)} {tx : ℕ}
    (hbefore : run (useStep samePx) (.new mode) before = some (s, o))
    (hstart : ∀ u ∈ before.getLast?, u.tx ≠ some tx) : ¬ (s.txOpen = true ∧ s.tx = tx) := by
  rcases List.eq_nil_or_concat' before with rfl | ⟨us, u, rfl⟩
  · rw [run_nil] at hbefore
    cases hbefore
    exact fun h => by cases h.1
  · obtain ⟨m, o₁, o₂, -, hstep, -⟩ := run_concat.mp hbefore
    have hnot := not_open_of_use (s := m) samePx
      (hstart u (by rw [List.getLast?_concat]; rfl))
    rw [useStep_eq_some hstep] at hnot
    exact hnot

theorem use_balanced (samePx : Px → Px → Bool) (hs : s.Inv) {u : Use Px Pl} (hu : u ≠ .clear) :
    Balanced s (tradesOf [u] : Multiset (Trade Px Pl)) (s.use samePx u).1 (s.use samePx u).2 := by
  cases u with
  | clear => exact absurd rfl hu
  | call c => exact (call_balanced hs samePx c).1

theorem run_balanced {us : List (Use Px Pl)} (hs : s.Inv) (hus : ∀ u ∈ us, u ≠ .clear)
    (hrun : run (useStep samePx) s us = some (s', o)) :
    Balanced s (tradesOf us : Multiset (Trade Px Pl)) s' o := by
  refine run_induction (I := fun us o m => Balanced s (tradesOf us : Multiset (Trade Px Pl)) m o)
    (P := fun _ u => u ≠ .clear) ?_ ?_ (allSteps_of_forall hus s) hrun
  · exact ⟨hs, by rw [released_nil, Multiset.zero_add]; exact Multiset.add_zero _⟩
  · intro us os m u m' om hm hu hstep
    have hnext := use_balanced samePx hm.inv hu
    rw [useStep_eq_some hstep] at hnext
    rw [tradesOf_concat, ← Multiset.coe_add]
    exact hm.trans hnext

/-- A slate where a transaction is not open holds nothing of it. -/
theorem filter_unreleased (hs : s.Inv) {tx : ℕ} (h : ¬ (s.txOpen = true ∧ s.tx = tx)) :
    s.unreleased.filter (fun t => t.tx = tx) = 0 := by
  refine Multiset.filter_eq_nil.mpr fun t ht htx => ?_
  rcases hopen : s.txOpen with _ | _
  · rw [unreleased_of_fills_nil (hs.closed hopen)] at ht
    exact Multiset.notMem_zero t ht
  · exact h ⟨hopen, (hs.unreleased_tx t ht).symm.trans htx⟩

theorem tx_of_trade {u : Use Px Pl} {t : Trade Px Pl} (h : u.trade = some t) :
    u.tx = some t.tx := by
  cases u with
  | clear => cases h
  | call c =>
      cases c with
      | onTrade t' =>
          cases h
          rfl
      | advance _ => cases h
      | onBook _ _ _ _ => cases h
      | flush => cases h

/-- All fills of a transaction go out with it. -/
theorem released_of_block {tx : ℕ} {block : List (Use Px Pl)} {last : Use Px Pl} (hs : s.Inv)
    (hstart : ¬ (s.txOpen = true ∧ s.tx = tx)) (hblock : ∀ u ∈ block, u.tx = some tx)
    (hlast : last.tx ≠ some tx) (hclear : last ≠ .clear)
    (hrun : run (useStep samePx) s (block ++ [last]) = some (s', o)) :
    (released o).filter (fun t => t.tx = tx) = (tradesOf block : Multiset (Trade Px Pl)) := by
  have hnone : ∀ u ∈ block ++ [last], u ≠ .clear := by
    intro u hu
    rcases List.mem_append.mp hu with hu | hu
    · intro heq
      have htx := hblock u hu
      rw [heq] at htx
      cases htx
    · rw [List.mem_singleton.mp hu]
      exact hclear
  have hbal := run_balanced hs hnone hrun
  have hend : ¬ (s'.txOpen = true ∧ s'.tx = tx) := by
    obtain ⟨m, o₁, o₂, -, hstep, -⟩ := run_concat.mp hrun
    have hnot := not_open_of_use (s := m) samePx hlast
    rw [useStep_eq_some hstep] at hnot
    exact hnot
  have hof : (tradesOf block : Multiset (Trade Px Pl)).filter (fun t => t.tx = tx) =
      tradesOf block := by
    refine Multiset.filter_eq_self.mpr fun t ht => ?_
    obtain ⟨u, hu, htrade⟩ := List.mem_filterMap.mp (Multiset.mem_coe.mp ht)
    exact Option.some.inj ((tx_of_trade htrade).symm.trans (hblock u hu))
  have hrest : (tradesOf [last] : Multiset (Trade Px Pl)).filter (fun t => t.tx = tx) = 0 := by
    refine Multiset.filter_eq_nil.mpr fun t ht htx => ?_
    obtain ⟨u, hu, htrade⟩ := List.mem_filterMap.mp (Multiset.mem_coe.mp ht)
    rw [List.mem_singleton.mp hu] at htrade
    exact hlast ((tx_of_trade htrade).trans (congrArg some htx))
  have hmoved := congrArg (Multiset.filter fun t => t.tx = tx) hbal.moved
  rw [tradesOf_concat, ← Multiset.coe_add, Multiset.filter_add, Multiset.filter_add,
    Multiset.filter_add, filter_unreleased hs hstart, filter_unreleased hbal.inv hend, hof,
    hrest, Multiset.zero_add, Multiset.add_zero, Multiset.add_zero] at hmoved
  exact hmoved.symm

/-- **The roles are those of the rules.**  After any uses, let a transaction come whose trade
    records precede its Changes and Deletes.  At each of its uses, what is released of it has the
    role of the decision by the own records so far, and at the use after, which closes it, the role
    of the verdict by all of them; it is ambiguous only in a 1 vs 1 that no own record so far and
    no touch flag settled.  Unless it is cleared, every fill is released. -/
theorem roles_by_rules {mode : Release} {before block : List (Use Px Pl)} {last : Use Px Pl}
    {tx : ℕ} {past : List (Released Px Pl)}
    (hbefore : run (useStep samePx) (.new mode) before = some (s, past))
    (hstart : ∀ u ∈ before.getLast?, u.tx ≠ some tx) (hblock : ∀ u ∈ block, u.tx = some tx)
    (hlast : last.tx ≠ some tx) (horder : TradesFirst block) :
    (∀ done u todo m om m' ou, block = done ++ u :: todo →
      run (useStep samePx) s done = some (m, om) → useStep samePx m u = some (m', ou) →
      ByRules tx (tradesOf block) (ownRecords (tradesOf block) (recordsOf (done ++ [u])))
        (decision samePx (tradesOf block)
          (ownRecords (tradesOf block) (recordsOf (done ++ [u])))) ou) ∧
    (∀ m om m' ou, run (useStep samePx) s block = some (m, om) →
      useStep samePx m last = some (m', ou) →
      ByRules tx (tradesOf block) (ownRecords (tradesOf block) (recordsOf block))
        (closing samePx (tradesOf block) (ownRecords (tradesOf block) (recordsOf block))) ou) ∧
    (last ≠ .clear → ∀ s' o, run (useStep samePx) s (block ++ [last]) = some (s', o) →
      (released o).filter (fun t => t.tx = tx) = (tradesOf block : Multiset (Trade Px Pl))) := by
  have hexact : s.Exact := exact_of_run (exact_new mode) hbefore
  have hother := not_open_of_start hbefore hstart
  have htold : ∀ us m om, run (useStep samePx) s us = some (m, om) → us <+: block →
      Told samePx tx us m := by
    intro us m om hrun
    refine run_invariant (I := fun us _ m => us <+: block → Told samePx tx us m) ?_ ?_ hrun
    · exact fun _ => ⟨hexact, .inl ⟨rfl, hother⟩⟩
    · intro us _ m u m' o' hm hstep hprefix
      obtain ⟨todo, rfl⟩ := hprefix
      have hnext := (use_told samePx (hm ((List.prefix_append us [u]).trans
        (List.prefix_append _ todo))) (hblock u (by simp)) horder.of_append).1
      rw [useStep_eq_some hstep] at hnext
      exact hnext
  refine ⟨?_, ?_, ?_⟩
  · intro done u todo m om m' ou hsplit hdone hstep
    have hu := hblock u (by rw [hsplit]; simp)
    have hsplit' : block = (done ++ [u]) ++ todo := by
      rw [hsplit, List.append_assoc]
      rfl
    have hm := htold done m om hdone ⟨u :: todo, hsplit.symm⟩
    have hone := (use_told samePx hm hu (hsplit' ▸ horder).of_append).2
    rw [useStep_eq_some hstep] at hone
    rcases hone with hnone | ⟨hown, hrules⟩
    · exact fun r hr htx => absurd htx (hnone r hr)
    · -- after an own record no trade record comes
      have hrecords : recordsOf (done ++ [u]) ≠ [] := by
        intro hnil
        rw [hnil] at hown
        exact hown rfl
      have htrades : tradesOf block = tradesOf (done ++ [u]) := by
        have hrest := (hsplit' ▸ horder).trades_nil hrecords
        rw [hsplit', tradesOf, List.filterMap_append]
        exact (congrArg (tradesOf (done ++ [u]) ++ ·) hrest).trans (List.append_nil _)
      rw [htrades]
      exact hrules
  · intro m om m' ou hrun hstep
    have hclose := close_by_rules samePx
      (htold block m om hrun (List.prefix_refl _)) hlast
    rw [useStep_eq_some hstep] at hclose
    exact hclose
  · intro hclear s' o hrun
    exact released_of_block hexact.sound.toInv hother hblock hlast hclear hrun

/-- One against one: the buy is deleted first, and a Change of the sell moves its price. -/
def deletedAndMoved : List (Use ℤ Unit) :=
  [tradeOf 1 9 .buy true, tradeOf 2 9 .sel true, tradeOf 2 9 .sel true, recordOf 1 9 2 10,
    recordOf 2 9 1 12]

theorem deleted_and_moved_by_rules :
    (run (useStep (· == ·)) (.new .atOwnRecord) (deletedAndMoved ++ [.call .flush])).map
        (fun r => r.2.map fun r => (r.fill.oid, r.role)) =
      some [(1, .ambiguous), (2, .aggressor), (2, .aggressor)] ∧
    ∀ s o, run (useStep (· == ·)) (.new .atOwnRecord) (deletedAndMoved ++ [.call .flush]) =
      some (s, o) →
      (released o).filter (fun t => t.tx = 9) = (tradesOf deletedAndMoved : Multiset _) := by
  have hnone : run (useStep (· == ·)) (.new .atOwnRecord) ([] : List (Use ℤ Unit)) =
      some (.new .atOwnRecord, []) := rfl
  have hblock : ∀ u ∈ deletedAndMoved, u.tx = some 9 := by decide
  have hlast : (.call .flush : Use ℤ Unit).tx ≠ some 9 := nofun
  have horder : TradesFirst deletedAndMoved := by decide
  exact ⟨by decide +kernel, (roles_by_rules hnone nofun hblock hlast horder).2.2 nofun⟩

end KasparHft.FillSlate
