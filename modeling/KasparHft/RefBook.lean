import KasparHft.MarketData
import KasparHft.TotalIndex
import Mathlib.Data.List.Induction
import Mathlib.Order.Bounds.Basic

/-!
# The reference book

`unit_test/obcmp/obcmp.cpp`, the class `RefBook`: the minimal book the comparison tool
builds of the same records, to hold the books under test against.  It keeps the orders by
id and the summed size of each price on either side.  A record replaces the order of its
id, and an order that comes takes out the orders of the other side that it crosses.

`llround(pxd / g_tick)` is the parameter `ticks`, and `pxd <= 0` is what `PriceOps.pos`
denies.  The loop over the orders runs in the order of the entries of the map, on which
nothing depends.  The integers are unbounded: an order is of less than `2 ^ 32`, so a sum that an
`int64_t` cannot hold takes `2 ^ 31` orders at one price, more than the map has memory for.
-/

namespace KasparHft.Obcmp

open AssocMap TotalIndex

variable {Px : Type}

/-- `Ord`; `buy` is the side. -/
structure Ord where
  side : Side
  px : ℤ
  qty : ℤ
deriving DecidableEq, Repr

structure RefBook where
  ord : Map ℕ Ord := ∅
  bid : Map ℤ ℤ := ∅
  ask : Map ℤ ℤ := ∅

/-- `bid_` or `ask_`. -/
def RefBook.levels (r : RefBook) : Side → Map ℤ ℤ
  | .buy => r.bid
  | .sel => r.ask

def RefBook.setLevels (r : RefBook) (sd : Side) (levels : Map ℤ ℤ) : RefBook :=
  match sd with
  | .buy => { r with bid := levels }
  | .sel => { r with ask := levels }

/-- An order leaves its level, which goes when nothing is left, and the map. -/
def RefBook.remove (r : RefBook) (oid : ℕ) (o : Ord) : RefBook :=
  { r.setLevels o.side (prune (bump (r.levels o.side) o.px (-o.qty)) o.px) with
    ord := r.ord.erase oid }

/-- An order joins its level and the map. -/
def RefBook.put (r : RefBook) (oid : ℕ) (o : Ord) : RefBook :=
  { r.setLevels o.side (bump (r.levels o.side) o.px o.qty) with ord := r.ord.insert oid o }

/-- The order of the id of a record is taken out. -/
def RefBook.drop (r : RefBook) (oid : ℕ) : RefBook :=
  match r.ord.lookup oid with
  | none => r
  | some o => r.remove oid o

/-- `o` crosses the resting order `x`. -/
def Ord.crosses (o x : Ord) : Bool :=
  x.side != o.side && match o.side with
    | .buy => x.px ≤ o.px
    | .sel => o.px ≤ x.px

/-- `crossed`: the best price of the other side is at or through that of `o`. -/
def RefBook.crossed (r : RefBook) (o : Ord) : Bool :=
  match o.side with
  | .buy => r.ask.keys.min?.any (· ≤ o.px)
  | .sel => r.bid.keys.max?.any (o.px ≤ ·)

/-- One order of the loop of the uncross. -/
def RefBook.uncrossOne (o : Ord) (r : RefBook) (e : Sigma fun _ : ℕ => Ord) : RefBook :=
  if o.crosses e.2 then r.remove e.1 e.2 else r

/-- The uncross. -/
def RefBook.uncross (r : RefBook) (o : Ord) : RefBook :=
  if r.crossed o then r.ord.entries.foldl (RefBook.uncrossOne o) r else r

/-- The order a record brings, if any: not a Delete (2), with a size, a price and a side. -/
def brings (ops : PriceOps Px) (ticks : Px → ℤ) (m : Mbo Px) : Option Ord :=
  if m.orderUpdateAction = 2 ∨ m.displayQty = 0 ∨ ¬ ops.pos m.pxd then none
  else (getSide m.side).map fun sd => ⟨sd, ticks m.pxd, m.displayQty⟩

/-- `apply`. -/
def RefBook.apply (ops : PriceOps Px) (ticks : Px → ℤ) (r : RefBook) (m : Mbo Px) : RefBook :=
  let r := r.drop m.orderID
  match brings ops ticks m with
  | none => r
  | some o => (r.put m.orderID o).uncross o

/-- `top`: the best bid and offer with their sizes, when both sides are there and the market
    is not crossed. -/
def RefBook.top (r : RefBook) : Option (ℤ × ℤ × ℤ × ℤ) :=
  r.bid.keys.max?.bind fun b =>
    r.ask.keys.min?.bind fun a =>
      if b < a then some (b, size r.bid b, a, size r.ask a) else none

/-! ### What an order adds -/

/-- What an order adds to the level at `px` of side `sd`. -/
def Ord.weight (sd : Side) (px : ℤ) (o : Ord) : ℤ := if o.side = sd ∧ o.px = px then o.qty else 0

theorem Ord.weight_of_side {sd : Side} {o : Ord} (h : o.side = sd) (px : ℤ) :
    o.weight sd px = if px = o.px then o.qty else 0 := by
  unfold Ord.weight
  by_cases hpx : px = o.px
  · rw [if_pos ⟨h, hpx.symm⟩, if_pos hpx]
  · rw [if_neg fun hat => hpx hat.2.symm, if_neg hpx]

theorem Ord.weight_of_ne {sd : Side} {o : Ord} (h : o.side ≠ sd) (px : ℤ) : o.weight sd px = 0 :=
  if_neg fun hat => h hat.1

theorem Ord.weight_nonneg {o : Ord} (h : 0 < o.qty) (sd : Side) (px : ℤ) : 0 ≤ o.weight sd px := by
  unfold Ord.weight
  split <;> omega

theorem levels_setLevels (r : RefBook) (sd sd' : Side) (levels : Map ℤ ℤ) :
    (r.setLevels sd levels).levels sd' = if sd' = sd then levels else r.levels sd' := by
  cases sd <;> cases sd' <;> rfl

theorem levels_ord (r : RefBook) (ord : Map ℕ Ord) (sd : Side) :
    ({ r with ord := ord } : RefBook).levels sd = r.levels sd := by cases sd <;> rfl

theorem levels_remove (r : RefBook) (oid : ℕ) (o : Ord) (sd : Side) :
    (r.remove oid o).levels sd = if sd = o.side then
      prune (bump (r.levels o.side) o.px (-o.qty)) o.px else r.levels sd :=
  (levels_ord _ _ _).trans (levels_setLevels _ _ _ _)

theorem levels_put (r : RefBook) (oid : ℕ) (o : Ord) (sd : Side) :
    (r.put oid o).levels sd = if sd = o.side then
      bump (r.levels o.side) o.px o.qty else r.levels sd :=
  (levels_ord _ _ _).trans (levels_setLevels _ _ _ _)

/-! ### The first and the last price -/

theorem exists_min {l : List ℤ} {p : ℤ} (h : p ∈ l) : ∃ a, l.min? = some a ∧ a ≤ p := by
  obtain ⟨a, ha⟩ := Option.isSome_iff_exists.mp (List.isSome_min?_of_mem h)
  exact ⟨a, ha, (List.min?_eq_some_iff.mp ha).2 p h⟩

theorem exists_max {l : List ℤ} {p : ℤ} (h : p ∈ l) : ∃ a, l.max? = some a ∧ p ≤ a := by
  obtain ⟨a, ha⟩ := Option.isSome_iff_exists.mp (List.isSome_max?_of_mem h)
  exact ⟨a, ha, (List.max?_eq_some_iff.mp ha).2 p h⟩

/-! ### The levels are sums -/

/-- The levels are the sums over the orders, all of which have a size. -/
structure RefBook.Summed (r : RefBook) : Prop where
  indexes : ∀ sd, Indexes (Ord.weight sd) r.ord (r.levels sd)
  sizes : ∀ oid o, r.ord.lookup oid = some o → 0 < o.qty

section Summed

variable {r : RefBook} {oid : ℕ} {o x : Ord}

theorem RefBook.Summed.empty : RefBook.Summed {} where
  indexes sd := by cases sd <;> exact Indexes.empty _
  sizes _ _ h := by cases h

theorem RefBook.Summed.remove (h : r.Summed) (hl : r.ord.lookup oid = some o) :
    (r.remove oid o).Summed where
  indexes sd := by
    rw [levels_remove]
    split
    next hsd =>
      subst hsd
      exact (h.indexes o.side).remove hl (Ord.weight_of_side rfl) fun k x hk =>
        Ord.weight_nonneg (h.sizes k x hk) _ _
    next hsd => exact (h.indexes sd).remove_other hl (Ord.weight_of_ne (Ne.symm hsd))
  sizes := forall_erase h.sizes

theorem RefBook.Summed.put (h : r.Summed) (hl : r.ord.lookup oid = none) (hqty : 0 < o.qty) :
    (r.put oid o).Summed where
  indexes sd := by
    rw [levels_put]
    split
    next hsd =>
      subst hsd
      exact (h.indexes o.side).add hl (Ord.weight_of_side rfl) hqty
    next hsd => exact (h.indexes sd).add_other hl (Ord.weight_of_ne (Ne.symm hsd))
  sizes := forall_insert h.sizes hqty

theorem RefBook.Summed.drop (h : r.Summed) (oid : ℕ) : (r.drop oid).Summed := by
  unfold RefBook.drop
  split
  · exact h
  next hl => exact h.remove hl

theorem lookup_drop (r : RefBook) (oid k : ℕ) :
    (r.drop oid).ord.lookup k = if k = oid then none else r.ord.lookup k := by
  unfold RefBook.drop
  split
  next hl =>
    split
    next hk => rw [hk, hl]
    next => rfl
  next =>
    split
    next hk => rw [hk]; exact AList.lookup_erase _ _
    next hk => exact AList.lookup_erase_ne hk

theorem lookup_put (r : RefBook) (oid k : ℕ) (o : Ord) :
    (r.put oid o).ord.lookup k = if k = oid then some o else r.ord.lookup k := by
  split
  next hk => rw [hk]; exact AList.lookup_insert _
  next hk => exact AList.lookup_insert_ne hk

/-- A price of the book is one at which it holds an order. -/
theorem RefBook.Summed.mem_keys (h : r.Summed) (hl : r.ord.lookup oid = some o) :
    o.px ∈ (r.levels o.side).keys := by
  have hsum := total_erase_of_lookup (f := fun _ x => Ord.weight o.side o.px x) hl
  have hrest : 0 ≤ total (fun _ x => Ord.weight o.side o.px x) (r.ord.erase oid) :=
    total_nonneg fun k x hk => Ord.weight_nonneg (forall_erase h.sizes k x hk) _ _
  have hqty := h.sizes oid o hl
  rw [Ord.weight_of_side rfl, if_pos rfl, ← (h.indexes o.side).sized] at hsum
  have hsize : (r.levels o.side).lookup o.px = some (size (r.levels o.side) o.px) :=
    (h.indexes o.side).lookup_iff.mpr ⟨rfl, by omega⟩
  exact AList.lookup_isSome.mp (hsize ▸ rfl)

/-- The loop over the orders takes out those of its list that are crossed. -/
theorem uncross_fold (o : Ord) (l : List (Sigma fun _ : ℕ => Ord))
    (hnodup : (l.map Sigma.fst).Nodup) (h : r.Summed) (hl : ∀ e ∈ l, r.ord.lookup e.1 = some e.2) :
    (l.foldl (RefBook.uncrossOne o) r).Summed ∧
      ∀ k, (l.foldl (RefBook.uncrossOne o) r).ord.lookup k =
        if ∃ e ∈ l, e.1 = k ∧ o.crosses e.2 = true then none else r.ord.lookup k := by
  induction l generalizing r with
  | nil => exact ⟨h, fun k => (if_neg (by simp)).symm⟩
  | cons e l ih =>
      obtain ⟨hnew, hnodup⟩ := List.nodup_cons.mp hnodup
      have hone : (RefBook.uncrossOne o r e).Summed ∧
          ∀ k, (RefBook.uncrossOne o r e).ord.lookup k =
            if e.1 = k ∧ o.crosses e.2 = true then none else r.ord.lookup k := by
        unfold RefBook.uncrossOne
        split
        next hcross =>
          refine ⟨h.remove (hl e List.mem_cons_self), fun k => ?_⟩
          split
          next hk => rw [← hk.1]; exact AList.lookup_erase _ _
          next hk => exact AList.lookup_erase_ne fun heq => hk ⟨heq.symm, hcross⟩
        next hcross => exact ⟨h, fun k => (if_neg fun hk => hcross hk.2).symm⟩
      have hrest : ∀ x ∈ l, (RefBook.uncrossOne o r e).ord.lookup x.1 = some x.2 := by
        intro x hx
        rw [hone.2, if_neg]
        · exact hl x (List.mem_cons_of_mem _ hx)
        · rintro ⟨heq, -⟩
          exact hnew (heq ▸ List.mem_map_of_mem hx)
      obtain ⟨hsummed, hlookup⟩ := ih hnodup hone.1 hrest
      refine ⟨hsummed, fun k => ?_⟩
      rw [List.foldl_cons, hlookup, hone.2]
      simp only [List.mem_cons, exists_eq_or_imp]
      by_cases hhead : e.1 = k ∧ o.crosses e.2 = true
      · rw [if_pos hhead, ite_self, if_pos (.inl hhead)]
      · simp only [hhead, false_or, if_false]

/-- An order that is crossed makes the book crossed. -/
theorem RefBook.Summed.crossed_of_crosses (h : r.Summed) (hl : r.ord.lookup oid = some x)
    (hcross : o.crosses x = true) : r.crossed o = true := by
  have hmem := h.mem_keys hl
  unfold Ord.crosses at hcross
  unfold RefBook.crossed
  obtain ⟨hside, hpx⟩ := Bool.and_eq_true_iff.mp hcross
  rcases ho : o.side with _ | _ <;> rcases hx : x.side with _ | _ <;> rw [ho, hx] at hside
  · cases hside
  · rw [ho] at hpx
    rw [hx] at hmem
    obtain ⟨a, ha, hle⟩ := exists_min hmem
    exact Option.any_eq_true _ _ |>.mpr ⟨a, ha, decide_eq_true (hle.trans (of_decide_eq_true hpx))⟩
  · rw [ho] at hpx
    rw [hx] at hmem
    obtain ⟨a, ha, hle⟩ := exists_max hmem
    exact Option.any_eq_true _ _ |>.mpr ⟨a, ha, decide_eq_true ((of_decide_eq_true hpx).trans hle)⟩
  · cases hside

/-- **The uncross** takes out exactly the orders that are crossed. -/
theorem RefBook.Summed.uncross (h : r.Summed) (o : Ord) : (r.uncross o).Summed ∧
    ∀ k, (r.uncross o).ord.lookup k = (r.ord.lookup k).filter fun x => !o.crosses x := by
  unfold RefBook.uncross
  split
  next hcrossed =>
    obtain ⟨hsummed, hlookup⟩ := uncross_fold o r.ord.entries r.ord.nodupKeys h
      fun e he => AList.mem_lookup_iff.mpr he
    refine ⟨hsummed, fun k => ?_⟩
    rw [hlookup]
    rcases hk : r.ord.lookup k with _ | x
    · exact ite_self _
    · by_cases hx : o.crosses x = true
      · rw [Option.filter_some_neg (by simpa using hx),
          if_pos ⟨⟨k, x⟩, AList.mem_lookup_iff.mp hk, rfl, hx⟩]
      · rw [Option.filter_some_pos (by simpa using hx), if_neg]
        rintro ⟨⟨k, y⟩, hy, rfl, hcross⟩
        obtain rfl := Option.some.inj ((AList.mem_lookup_iff.mpr hy).symm.trans hk)
        exact hx hcross
  next hcrossed =>
    refine ⟨h, fun k => ?_⟩
    rcases hk : r.ord.lookup k with _ | x
    · rfl
    · rw [Option.filter_some_pos]
      rcases hx : o.crosses x with _ | _
      · rfl
      · exact absurd (h.crossed_of_crosses hk hx) hcrossed

end Summed

/-! ### Records -/

section Records

variable {ops : PriceOps Px} {ticks : Px → ℤ} {m : Mbo Px} {r : RefBook} {o x : Ord}

theorem Ord.crosses_comm (o x : Ord) : o.crosses x = x.crosses o := by
  unfold Ord.crosses
  rcases o with ⟨_ | _, _, _⟩ <;> rcases x with ⟨_ | _, _, _⟩ <;> rfl

theorem Ord.crosses_of_side (h : x.side = o.side) : o.crosses x = false := by
  unfold Ord.crosses
  rw [h, bne_self_eq_false, Bool.false_and]

theorem brings_qty (h : brings ops ticks m = some o) : 0 < o.qty := by
  unfold brings at h
  split at h
  · cases h
  next hbrings =>
    obtain ⟨sd, -, rfl⟩ := Option.map_eq_some_iff.mp h
    dsimp only
    omega

/-- What `x` survives: that a record brings no order that crosses it. -/
def survives (ops : PriceOps Px) (ticks : Px → ℤ) (m : Mbo Px) (x : Ord) : Bool :=
  (brings ops ticks m).all fun o => !o.crosses x

/-- **One record.**  It decides the order of its id and takes out what it crosses. -/
theorem RefBook.Summed.apply (h : r.Summed) (m : Mbo Px) : (r.apply ops ticks m).Summed ∧
    ∀ k, (r.apply ops ticks m).ord.lookup k = if k = m.orderID then brings ops ticks m
      else (r.ord.lookup k).filter (survives ops ticks m) := by
  have hdrop := h.drop m.orderID
  unfold RefBook.apply survives
  rcases hb : brings ops ticks m with _ | o
  · refine ⟨hdrop, fun k => ?_⟩
    dsimp only
    rw [lookup_drop]
    split
    · rfl
    · cases r.ord.lookup k <;> rfl
  · have hnone : (r.drop m.orderID).ord.lookup m.orderID = none := by
      rw [lookup_drop, if_pos rfl]
    obtain ⟨hsummed, hlookup⟩ := (hdrop.put hnone (brings_qty hb)).uncross o
    refine ⟨hsummed, fun k => ?_⟩
    dsimp only
    rw [hlookup, lookup_put, lookup_drop]
    split
    · rw [Option.filter_some_pos]
      rw [Ord.crosses_of_side rfl, Bool.not_false]
    · rfl

/-- No two orders of the book cross. -/
def RefBook.Uncrossed (r : RefBook) : Prop :=
  ∀ i j o x, r.ord.lookup i = some o → r.ord.lookup j = some x → o.crosses x = false

theorem RefBook.Uncrossed.apply (h : r.Uncrossed) (hr : r.Summed) (m : Mbo Px) :
    (r.apply ops ticks m).Uncrossed := by
  obtain ⟨-, hlookup⟩ : (r.apply ops ticks m).Summed ∧ _ := hr.apply m
  intro i j o x hi hj
  rw [hlookup] at hi hj
  split at hi <;> split at hj
  · obtain rfl := Option.some.inj (hi.symm.trans hj)
    exact Ord.crosses_of_side rfl
  · obtain ⟨-, hx⟩ := Option.filter_eq_some_iff.mp hj
    unfold survives at hx
    rw [hi] at hx
    simpa using hx
  · obtain ⟨-, ho⟩ := Option.filter_eq_some_iff.mp hi
    unfold survives at ho
    rw [hj] at ho
    rw [Ord.crosses_comm]
    simpa using ho
  · exact h i j o x (Option.filter_eq_some_iff.mp hi).1 (Option.filter_eq_some_iff.mp hj).1

end Records

/-! ### Every sequence of records -/

section Runs

variable {ops : PriceOps Px} {ticks : Px → ℤ} {ms : List (Mbo Px)} {m : Mbo Px} {r : RefBook}
  {k : ℕ} {o : Ord}

/-- The reference book after some records. -/
def RefBook.after (ops : PriceOps Px) (ticks : Px → ℤ) (ms : List (Mbo Px)) : RefBook :=
  ms.foldl (RefBook.apply ops ticks) {}

/-- Order `o` stands after some records: the last record of its id brought it, and no record
    since has brought an order that crosses it. -/
def Stands (ops : PriceOps Px) (ticks : Px → ℤ) (ms : List (Mbo Px)) (k : ℕ) (o : Ord) : Prop :=
  ∃ before m after, ms = before ++ m :: after ∧ m.orderID = k ∧ brings ops ticks m = some o ∧
    ∀ m' ∈ after, m'.orderID ≠ k ∧ survives ops ticks m' o = true

theorem not_stands_nil : ¬ Stands ops ticks [] k o := by
  rintro ⟨before, m, after, hms, -⟩
  exact absurd hms.symm (List.append_ne_nil_of_right_ne_nil _ (List.cons_ne_nil _ _))

theorem stands_concat : Stands ops ticks (ms ++ [m]) k o ↔
    if k = m.orderID then brings ops ticks m = some o
    else Stands ops ticks ms k o ∧ survives ops ticks m o = true := by
  constructor
  · rintro ⟨before, m₁, after, hms, hk, hbrings, hafter⟩
    rcases List.eq_nil_or_concat after with rfl | ⟨after, m₂, rfl⟩
    · obtain ⟨-, hm⟩ := List.append_inj' hms rfl
      obtain rfl := List.singleton_inj.mp hm
      rw [if_pos hk.symm]
      exact hbrings
    · rw [List.concat_eq_append, ← List.cons_append, ← List.append_assoc] at hms
      obtain ⟨rfl, hm⟩ := List.append_inj' hms rfl
      obtain rfl := List.singleton_inj.mp hm
      have hlast := hafter m (by simp)
      rw [if_neg fun heq => hlast.1 heq.symm]
      refine ⟨⟨before, m₁, after, rfl, hk, hbrings, ?_⟩, hlast.2⟩
      exact fun m' hm' => hafter m' (by simp [hm'])
  · split
    next hk => exact fun hbrings => ⟨ms, m, [], rfl, hk.symm, hbrings, by simp⟩
    next hk =>
      rintro ⟨⟨before, m₁, after, rfl, hm, hbrings, hafter⟩, hsurvives⟩
      refine ⟨before, m₁, after ++ [m], by simp, hm, hbrings, ?_⟩
      intro m' hm'
      rcases List.mem_append.mp hm' with hm' | hm'
      · exact hafter m' hm'
      · obtain rfl := List.mem_singleton.mp hm'
        exact ⟨fun heq => hk heq.symm, hsurvives⟩

/-- The book holds the orders that stand, sums them, and does not cross. -/
theorem after_sound (ops : PriceOps Px) (ticks : Px → ℤ) (ms : List (Mbo Px)) :
    (RefBook.after ops ticks ms).Summed ∧ (RefBook.after ops ticks ms).Uncrossed ∧
      ∀ k o, (RefBook.after ops ticks ms).ord.lookup k = some o ↔ Stands ops ticks ms k o := by
  induction ms using List.reverseRecOn with
  | nil =>
      refine ⟨RefBook.Summed.empty, ?_, ?_⟩
      · intro i j o x hi
        cases hi
      · intro k o
        refine ⟨fun h => ?_, fun h => absurd h not_stands_nil⟩
        cases h
  | append_singleton ms m ih =>
      obtain ⟨hsummed, huncrossed, hstands⟩ := ih
      have hafter : RefBook.after ops ticks (ms ++ [m]) =
          (RefBook.after ops ticks ms).apply ops ticks m := List.foldl_concat ..
      rw [hafter]
      obtain ⟨hsummed', hlookup⟩ : ((RefBook.after ops ticks ms).apply ops ticks m).Summed ∧ _ :=
        hsummed.apply m
      refine ⟨hsummed', huncrossed.apply hsummed m, fun k o => ?_⟩
      rw [hlookup, stands_concat]
      split
      · rfl
      · rw [Option.filter_eq_some_iff, hstands]

/-- The prices at which a side holds orders. -/
def RefBook.prices (r : RefBook) (sd : Side) : Set ℤ :=
  {p | ∃ k o, r.ord.lookup k = some o ∧ o.side = sd ∧ o.px = p}

theorem RefBook.Summed.mem_keys_iff (h : r.Summed) (sd : Side) (p : ℤ) :
    p ∈ (r.levels sd).keys ↔ p ∈ r.prices sd := by
  constructor
  · intro hkey
    obtain ⟨n, hn⟩ := Option.isSome_iff_exists.mp (AList.lookup_isSome.mpr hkey)
    obtain ⟨hsize, hpos⟩ := (h.indexes sd).lookup_iff.mp hn
    rw [(h.indexes sd).sized] at hsize
    by_contra hnone
    refine absurd hsize (ne_of_lt ?_)
    rw [total_eq_zero]
    · exact hpos
    · intro k o hk
      exact if_neg fun hat => hnone ⟨k, o, hk, hat⟩
  · rintro ⟨k, o, hk, rfl, rfl⟩
    exact h.mem_keys hk

theorem RefBook.Uncrossed.lt (h : r.Uncrossed) {b a : ℤ} (hb : b ∈ r.prices .buy)
    (ha : a ∈ r.prices .sel) : b < a := by
  obtain ⟨i, o, hi, ho, rfl⟩ := hb
  obtain ⟨j, x, hj, hx, rfl⟩ := ha
  have hcross := h i j o x hi hj
  unfold Ord.crosses at hcross
  rw [ho, hx] at hcross
  simpa using hcross

/-- The top of a book that is summed and does not cross. -/
theorem top_eq_some (h : r.Summed) (hun : r.Uncrossed) {b bs a as : ℤ} :
    r.top = some (b, bs, a, as) ↔ IsGreatest (r.prices .buy) b ∧ IsLeast (r.prices .sel) a ∧
      bs = size r.bid b ∧ as = size r.ask a := by
  have hmax : r.bid.keys.max? = some b ↔ IsGreatest (r.prices .buy) b := by
    rw [List.max?_eq_some_iff]
    exact and_congr (h.mem_keys_iff .buy b)
      ⟨fun hall p hp => hall p ((h.mem_keys_iff .buy p).mpr hp),
        fun hall p hp => hall ((h.mem_keys_iff .buy p).mp hp)⟩
  have hmin : r.ask.keys.min? = some a ↔ IsLeast (r.prices .sel) a := by
    rw [List.min?_eq_some_iff]
    exact and_congr (h.mem_keys_iff .sel a)
      ⟨fun hall p hp => hall p ((h.mem_keys_iff .sel p).mpr hp),
        fun hall p hp => hall ((h.mem_keys_iff .sel p).mp hp)⟩
  rw [← hmax, ← hmin]
  unfold RefBook.top
  constructor
  · intro htop
    obtain ⟨b', hb, htop⟩ := Option.bind_eq_some_iff.mp htop
    obtain ⟨a', ha, htop⟩ := Option.bind_eq_some_iff.mp htop
    split at htop
    · cases htop
      exact ⟨hb, ha, rfl, rfl⟩
    · cases htop
  · rintro ⟨hb, ha, rfl, rfl⟩
    have hlt := hun.lt (hmax.mp hb).1 (hmin.mp ha).1
    rw [hb, Option.bind_some, ha, Option.bind_some, if_pos hlt]

/-- **The reference market** is what its records say, whatever they are: it holds the orders
    that stand, each level is the sum of those at it, and the top is the best bid and offer
    of them, with these sums. -/
theorem market_of_records (ops : PriceOps Px) (ticks : Px → ℤ) (ms : List (Mbo Px)) :
    (∀ k o, (RefBook.after ops ticks ms).ord.lookup k = some o ↔ Stands ops ticks ms k o) ∧
      (∀ sd px, size ((RefBook.after ops ticks ms).levels sd) px =
        total (fun _ o => Ord.weight sd px o) (RefBook.after ops ticks ms).ord) ∧
      ∀ b bs a as, (RefBook.after ops ticks ms).top = some (b, bs, a, as) ↔
        IsGreatest ((RefBook.after ops ticks ms).prices .buy) b ∧
          IsLeast ((RefBook.after ops ticks ms).prices .sel) a ∧
          bs = size (RefBook.after ops ticks ms).bid b ∧
          as = size (RefBook.after ops ticks ms).ask a := by
  obtain ⟨hsummed, huncrossed, hstands⟩ := after_sound ops ticks ms
  exact ⟨hstands, fun sd px => (hsummed.indexes sd).sized px,
    fun b bs a as => top_eq_some hsummed huncrossed⟩

end Runs

end KasparHft.Obcmp
