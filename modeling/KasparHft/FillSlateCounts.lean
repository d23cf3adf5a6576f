import KasparHft.FillSlateIndex

/-!
# Counting the orders of a transaction

The rules of the slate count distinct orders, not fills: an order that is listed once per price
level it traded at counts once, on the side of its first listing.  The counters of the slate and
the touch flag it keeps for each side are those of the first listings.
-/

namespace KasparHft.FillSlate

open Machine AssocMap

variable {Px Pl : Type} {s s' : Slate Px Pl} {samePx : Px → Px → Bool} {d : ASide}
  {o : List (Released Px Pl)}

/-! ### First occurrences -/

section Firsts

variable {α κ : Type} [DecidableEq κ] {key : α → κ} {as : List α} {a b : α}

/-- The elements whose key has not come before. -/
def firsts (key : α → κ) : List α → List α
  | [] => []
  | a :: as => a :: (firsts key as).filter fun b => key b ≠ key a

/-- An element is a first one if a search for its key finds it. -/
theorem mem_firsts : a ∈ firsts key as ↔ as.find? (fun b => key b = key a) = some a := by
  induction as with
  | nil => exact ⟨nofun, nofun⟩
  | cons c as ih =>
      dsimp only [firsts]
      rw [List.mem_cons, List.mem_filter, ih]
      by_cases hkey : key c = key a
      · rw [List.find?_cons_of_pos (p := fun b => key b = key a) (decide_eq_true hkey)]
        constructor
        · rintro (rfl | ⟨-, hne⟩)
          · rfl
          · exact absurd hkey.symm (of_decide_eq_true hne)
        · exact fun h => .inl (Option.some.inj h).symm
      · rw [List.find?_cons_of_neg (p := fun b => key b = key a)
          fun heq => hkey (of_decide_eq_true heq)]
        constructor
        · rintro (rfl | ⟨hfind, -⟩)
          · exact absurd rfl hkey
          · exact hfind
        · exact fun h => .inr ⟨h, decide_eq_true fun heq => hkey heq.symm⟩

/-- First elements are told apart by their keys. -/
theorem eq_of_mem_firsts (ha : a ∈ firsts key as) (hb : b ∈ firsts key as) (h : key a = key b) :
    a = b := by
  have hfind := mem_firsts.mp ha
  rw [h] at hfind
  exact Option.some.inj (hfind.symm.trans (mem_firsts.mp hb))

/-- The first elements have every key. -/
theorem exists_mem_firsts (ha : a ∈ as) : ∃ b ∈ firsts key as, key b = key a := by
  rcases hfind : as.find? (fun b => key b = key a) with _ | b
  · have hnone := List.find?_eq_none.mp hfind a ha
    rw [decide_eq_true_eq] at hnone
    exact absurd rfl hnone
  · have hkey : key b = key a :=
      of_decide_eq_true (List.find?_some (p := fun b => key b = key a) hfind)
    refine ⟨b, mem_firsts.mpr ?_, hkey⟩
    rw [hkey]
    exact hfind

theorem mem_of_mem_firsts (h : a ∈ firsts key as) : a ∈ as :=
  List.mem_of_find?_eq_some (mem_firsts.mp h)

theorem mem_map_firsts {k : κ} : k ∈ (firsts key as).map key ↔ k ∈ as.map key := by
  constructor
  · intro hmem
    obtain ⟨x, hx, rfl⟩ := List.mem_map.mp hmem
    exact List.mem_map_of_mem (mem_of_mem_firsts hx)
  · intro hmem
    obtain ⟨x, hx, rfl⟩ := List.mem_map.mp hmem
    exact List.mem_map.mpr (exists_mem_firsts hx)

theorem firsts_concat (as : List α) (b : α) :
    firsts key (as ++ [b]) = firsts key as ++ if key b ∈ as.map key then [] else [b] := by
  induction as with
  | nil => rfl
  | cons c as ih =>
      rw [List.cons_append]
      dsimp only [firsts]
      rw [ih, List.filter_append, List.cons_append, List.map_cons]
      congr 2
      by_cases hmem : key b ∈ as.map key
      · rw [if_pos hmem, if_pos (List.mem_cons_of_mem _ hmem)]
        rfl
      · rw [if_neg hmem]
        by_cases hkey : key b = key c
        · have hcons : key b ∈ key c :: as.map key := hkey ▸ List.mem_cons_self
          rw [if_pos hcons, List.filter_cons_of_neg (p := fun b => key b ≠ key c)
            fun hne => of_decide_eq_true hne hkey]
          rfl
        · have hcons : key b ∉ key c :: as.map key := by
            rw [List.mem_cons, not_or]
            exact ⟨hkey, hmem⟩
          rw [if_neg hcons, List.filter_cons_of_pos (p := fun b => key b ≠ key c)
            (decide_eq_true hkey)]
          rfl

end Firsts

/-! ### The orders of each side -/

/-- The orders that are listed on a side, each with its first listing. -/
def listedOn (ts : List (Trade Px Pl)) (sd : Side) : List (Trade Px Pl) :=
  (firsts Trade.oid ts).filter fun t => t.side = sd

theorem mem_listedOn {ts : List (Trade Px Pl)} {sd : Side} {t : Trade Px Pl} :
    t ∈ listedOn ts sd ↔ t ∈ firsts Trade.oid ts ∧ t.side = sd := by
  unfold listedOn
  rw [List.mem_filter, decide_eq_true_eq]

theorem listedOn_concat (ts : List (Trade Px Pl)) (t : Trade Px Pl) (sd : Side) :
    listedOn (ts ++ [t]) sd =
      listedOn ts sd ++ if t.oid ∈ ts.map Trade.oid ∨ t.side ≠ sd then [] else [t] := by
  unfold listedOn
  rw [firsts_concat, List.filter_append]
  congr 1
  by_cases hmem : t.oid ∈ ts.map Trade.oid
  · rw [if_pos hmem, if_pos (.inl hmem)]
    rfl
  · rw [if_neg hmem]
    by_cases hside : t.side = sd
    · rw [if_neg (not_or.mpr ⟨hmem, not_not_intro hside⟩),
        List.filter_cons_of_pos (p := fun x : Trade Px Pl => x.side = sd) (decide_eq_true hside)]
      rfl
    · rw [if_pos (.inr hside), List.filter_cons_of_neg (p := fun x : Trade Px Pl => x.side = sd)
        fun heq => hside (of_decide_eq_true heq)]
      rfl

/-- The trades of the fills. -/
def Slate.trades (s : Slate Px Pl) : List (Trade Px Pl) := s.fills.map Fill.toTrade

/-- The counter of a side. -/
def Slate.orders (s : Slate Px Pl) : Side → ℕ
  | .buy => s.nb
  | .sel => s.ns

/-- The touch flag of a side. -/
def Slate.touch (s : Slate Px Pl) : Side → Bool
  | .buy => s.buyAtTouch
  | .sel => s.selAtTouch

/-- The counters are those of the first listings, and so is the touch flag of a side with one
    order. -/
structure Slate.Counted (s : Slate Px Pl) : Prop where
  orders : ∀ sd, s.orders sd = (listedOn s.trades sd).length
  touch : ∀ sd t, listedOn s.trades sd = [t] → s.touch sd = t.atTouch

theorem Slate.Counted.of_eq (hs : s.Counted) (htrades : s'.trades = s.trades)
    (horders : s'.orders = s.orders) (htouch : s'.touch = s.touch) : s'.Counted := by
  constructor
  · rw [horders, htrades]
    exact hs.orders
  · rw [htouch, htrades]
    exact hs.touch

theorem ReleasesAs.counted (h : ReleasesAs d s s' o) (hs : s.Counted) : s'.Counted := by
  refine hs.of_eq h.trades ?_ ?_
  · exact of_facts Slate.orders h.facts fun _ => by funext sd; cases sd <;> rfl
  · exact of_facts Slate.touch h.facts fun _ => by funext sd; cases sd <;> rfl

/-! ### Each use -/

theorem counted_of_nil (hfills : s.fills = []) (hnb : s.nb = 0) (hns : s.ns = 0) : s.Counted := by
  have htrades : s.trades = [] := congrArg (List.map _) hfills
  constructor
  · intro sd
    rw [htrades]
    cases sd
    · exact hnb
    · exact hns
  · intro sd t ht
    rw [htrades] at ht
    cases ht

theorem counted_new (mode : Release) : (Slate.new mode : Slate Px Pl).Counted :=
  counted_of_nil rfl rfl rfl

/-- An order is in the index if it is listed. -/
theorem Slate.Indexed.lookup_eq_none (hs : s.Indexed) {oid : ℕ} :
    s.idx.lookup oid = none ↔ oid ∉ s.trades.map Trade.oid := by
  have hoids : s.trades.map Trade.oid = s.oids := List.map_map
  rw [hoids]
  constructor
  · intro hnone hmem
    obtain ⟨k, hk⟩ := List.mem_iff_getElem?.mp hmem
    exact hs.of_lookup_none hnone k hk
  · intro hmem
    by_contra hne
    obtain ⟨o, ho⟩ := Option.ne_none_iff_exists'.mp hne
    exact hmem (List.mem_of_getElem? (hs.of_lookup_some ho).1)

theorem indexFill_trades (s : Slate Px Pl) (t : Trade Px Pl) (i : ℕ) :
    ((s.pushFill t).indexFill t i).trades = s.trades ++ [t] := by
  refine (indexFill_frame (s.pushFill t) t i).1.trans ?_
  dsimp only [Slate.pushFill]
  rw [List.map_append]
  rfl

/-- What the index update counts. -/
theorem indexFill_orders (s : Slate Px Pl) (t : Trade Px Pl) (i : ℕ) :
    (∀ sd, ((s.pushFill t).indexFill t i).orders sd =
      if s.idx.lookup t.oid = none ∧ t.side = sd then s.orders sd + 1 else s.orders sd) ∧
    ∀ sd, ((s.pushFill t).indexFill t i).touch sd =
      if s.idx.lookup t.oid = none ∧ t.side = sd then t.atTouch else s.touch sd := by
  unfold Slate.indexFill
  have hidx : (s.pushFill t).idx = s.idx := rfl
  rw [hidx]
  rcases hlookup : s.idx.lookup t.oid with _ | o
  · rcases hside : t.side with _ | _
    · constructor <;> intro sd <;> cases sd <;> rfl
    · constructor <;> intro sd <;> cases sd <;> rfl
  · constructor <;> intro sd <;> rw [if_neg fun h => by cases h.1] <;> cases sd <;> rfl

theorem indexFill_counted (hidx : s.Indexed) (hs : s.Counted) (t : Trade Px Pl) (i : ℕ) :
    ((s.pushFill t).indexFill t i).Counted := by
  obtain ⟨horders, htouch⟩ := indexFill_orders s t i
  constructor
  · intro sd
    rw [horders, indexFill_trades, listedOn_concat, hs.orders sd, List.length_append]
    by_cases hnew : s.idx.lookup t.oid = none ∧ t.side = sd
    · have hnot : ¬ (t.oid ∈ s.trades.map Trade.oid ∨ t.side ≠ sd) :=
        not_or.mpr ⟨hidx.lookup_eq_none.mp hnew.1, not_not_intro hnew.2⟩
      rw [if_pos hnew, if_neg hnot]
      rfl
    · have hold : t.oid ∈ s.trades.map Trade.oid ∨ t.side ≠ sd := by
        by_contra hnot
        obtain ⟨hmem, hside⟩ := not_or.mp hnot
        exact hnew ⟨hidx.lookup_eq_none.mpr hmem, not_not.mp hside⟩
      rw [if_neg hnew, if_pos hold]
      rfl
  · intro sd b hb
    rw [indexFill_trades, listedOn_concat] at hb
    rw [htouch]
    by_cases hnew : s.idx.lookup t.oid = none ∧ t.side = sd
    · have hnot : ¬ (t.oid ∈ s.trades.map Trade.oid ∨ t.side ≠ sd) :=
        not_or.mpr ⟨hidx.lookup_eq_none.mp hnew.1, not_not_intro hnew.2⟩
      rw [if_neg hnot] at hb
      have hlast : t = b := by
        have hget := congrArg List.getLast? hb
        rw [List.getLast?_concat] at hget
        exact Option.some.inj hget
      rw [if_pos hnew, hlast]
    · have hold : t.oid ∈ s.trades.map Trade.oid ∨ t.side ≠ sd := by
        by_contra hnot
        obtain ⟨hmem, hside⟩ := not_or.mp hnot
        exact hnew ⟨hidx.lookup_eq_none.mpr hmem, not_not.mp hside⟩
      rw [if_pos hold, List.append_nil] at hb
      rw [if_neg hnew]
      exact hs.touch sd b hb

theorem noted_counted (samePx : Px → Px → Bool) (hs : s.Counted) (oid action : ℕ) (px : Px)
    (o : Ord) :
    (s.noted samePx oid action px o).Counted := by
  obtain ⟨kept, moved, heq⟩ := noted_eq samePx s oid action px o
  rw [heq]
  exact hs.of_eq rfl (by funext sd; cases sd <;> rfl) (by funext sd; cases sd <;> rfl)

theorem settle_counted (hs : s.Counted) : s.settle.Counted :=
  hs.of_eq rfl (by funext sd; cases sd <;> rfl) (by funext sd; cases sd <;> rfl)

theorem clear_counted (s : Slate Px Pl) : s.clear.Counted := counted_of_nil rfl rfl rfl

theorem closeTx_counted (s : Slate Px Pl) : s.closeTx.1.Counted := by
  rw [closeTx_eq]
  exact clear_counted _

theorem use_counted (hidx : s.Indexed) (hs : s.Counted) (u : Use Px Pl) :
    (s.use samePx u).1.Counted := by
  have hadvance : ∀ tx, (s.advance tx).1.Counted := by
    intro tx
    unfold Slate.advance
    split
    · exact closeTx_counted s
    · exact hs
  cases u with
  | clear => exact clear_counted s
  | call c =>
      cases c with
      | advance tx => exact hadvance tx
      | onTrade t =>
          exact (releaseIfDecided_as _ _ _).counted
            (indexFill_counted (advance_indexed hidx t.tx) (hadvance t.tx) t _)
      | onBook oid tx action px =>
          change (s.onBook samePx oid tx action px).1.Counted
          rcases hopen : s.txOpen with _ | _
          · rw [onBook_of_closed samePx hopen]
            exact hs
          · by_cases htx : tx = s.tx
            · rcases onBook_cases samePx hopen htx oid action px with ⟨heq, -⟩ | ⟨o, -, -, -, heq⟩
              · rw [heq]
                exact hs
              · rw [heq]
                have hnoted := noted_counted samePx hs oid action px o
                exact (decide_as _ _).counted (settle_counted hnoted)
            · rw [onBook_of_ne samePx hopen htx]
              exact closeTx_counted s
      | flush => exact closeTx_counted s

/-- The slate is sound, indexed and counted. -/
structure Slate.Exact (s : Slate Px Pl) : Prop where
  sound : s.Sound
  indexed : s.Indexed
  counted : s.Counted

theorem exact_new (mode : Release) : (Slate.new mode : Slate Px Pl).Exact :=
  ⟨sound_new mode, indexed_new mode, counted_new mode⟩

theorem use_exact (samePx : Px → Px → Bool) (hs : s.Exact) (u : Use Px Pl) :
    (s.use samePx u).1.Exact :=
  ⟨use_sound hs.sound u, use_indexed hs.indexed u, use_counted hs.indexed hs.counted u⟩

theorem exact_of_run {us : List (Use Px Pl)} (hs : s.Exact)
    (hrun : run (useStep samePx) s us = some (s', o)) : s'.Exact := by
  refine run_invariant (I := fun _ _ s => s.Exact) hs ?_ hrun
  intro _ _ m u m' o' hm hstep
  have hexact := use_exact samePx hm u
  rw [useStep_eq_some hstep] at hexact
  exact hexact

end KasparHft.FillSlate
