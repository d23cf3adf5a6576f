import KasparHft.AssocMap
import Mathlib.Algebra.Order.BigOperators.Group.List
import Mathlib.Data.Int.Order.Basic

/-!
# An index of totals

A map of items is kept, and beside it an index that holds, for each place, the total weight
of the items there.  The index changes by one addition for each item that comes and one
subtraction for each that goes, and a place with nothing left is dropped.  `Indexes` says
that the index is right, and `add` and `remove` that the two updates keep it so.

The last section compares the totals over two maps when one keeps some of the items of the
other.
-/

namespace TotalIndex

open AssocMap

variable {κ ν ι : Type*}

section Index

variable [DecidableEq ι] {index : Map ι ℤ} {i j : ι} {n : ℤ}

/-- The total held for a place. -/
def size (index : Map ι ℤ) (i : ι) : ℤ := (index.lookup i).getD 0

/-- One addition; a place that is not there starts at zero. -/
def bump (index : Map ι ℤ) (i : ι) (d : ℤ) : Map ι ℤ := index.insert i (size index i + d)

/-- A place with nothing left is dropped. -/
def prune (index : Map ι ℤ) (i : ι) : Map ι ℤ :=
  match index.lookup i with
  | none => index
  | some n => if n ≤ 0 then index.erase i else index

theorem size_of_lookup (h : index.lookup i = some n) : size index i = n := by
  rw [size, h, Option.getD_some]

theorem size_bump (index : Map ι ℤ) (i j : ι) (d : ℤ) :
    size (bump index i d) j = if j = i then size index i + d else size index j := by
  unfold bump
  split
  next h => rw [h, size_of_lookup (AList.lookup_insert _)]
  next h => rw [size, AList.lookup_insert_ne h, size]

theorem lookup_prune_of_ne (h : j ≠ i) : (prune index i).lookup j = index.lookup j := by
  unfold prune
  split
  · rfl
  · split
    · exact AList.lookup_erase_ne h
    · rfl

/-- What pruning leaves at its place. -/
theorem lookup_prune_self : (prune index i).lookup i = (index.lookup i).filter (0 < ·) := by
  unfold prune
  rcases hl : index.lookup i with _ | n
  · exact hl
  · dsimp only
    split
    next hle =>
      rw [AList.lookup_erase, Option.filter_some_neg]
      simpa using hle
    next hpos =>
      rw [hl, Option.filter_some_pos]
      simpa using hpos

theorem size_prune (h : 0 ≤ size index i) (j : ι) : size (prune index i) j = size index j := by
  by_cases hj : j = i
  · rw [hj]
    unfold size at h ⊢
    rw [lookup_prune_self]
    rcases hl : index.lookup i with _ | n
    · rfl
    · rw [hl, Option.getD_some] at h
      by_cases hpos : 0 < n
      · rw [Option.filter_some_pos (by simpa using hpos)]
      · rw [Option.filter_some_neg (by simpa using hpos), Option.getD_none, Option.getD_some]
        omega
  · rw [size, lookup_prune_of_ne hj, size]

end Index

/-! ### The index is right -/

section Indexes

variable [DecidableEq ι] {w : ι → ν → ℤ} {items : Map κ ν} {index : Map ι ℤ} {k : κ} {v : ν}
  {i : ι} {d : ℤ}

/-- The index holds the totals that are not zero, and nothing else. -/
structure Indexes (w : ι → ν → ℤ) (items : Map κ ν) (index : Map ι ℤ) : Prop where
  sized : ∀ i, size index i = total (fun _ v => w i v) items
  positive : ∀ i n, index.lookup i = some n → 0 < n

theorem Indexes.empty (w : ι → ν → ℤ) : Indexes w (∅ : Map κ ν) ∅ where
  sized _ := rfl
  positive _ _ h := by cases h

theorem Indexes.nonneg (h : Indexes w items index) (i : ι) : 0 ≤ size index i := by
  unfold size
  rcases hl : index.lookup i with _ | n
  · exact Int.le_refl 0
  · exact Int.le_of_lt (h.positive i n hl)

theorem Indexes.lookup_iff (h : Indexes w items index) {n : ℤ} :
    index.lookup i = some n ↔ size index i = n ∧ 0 < n := by
  constructor
  · intro hl
    exact ⟨size_of_lookup hl, h.positive i n hl⟩
  · rintro ⟨rfl, hpos⟩
    unfold size at hpos ⊢
    rcases hl : index.lookup i with _ | n
    · rw [hl] at hpos
      exact absurd hpos (Int.lt_irrefl 0)
    · rfl

variable [DecidableEq κ]

/-- **An item comes.** -/
theorem Indexes.add (h : Indexes w items index) (hk : items.lookup k = none)
    (hw : ∀ j, w j v = if j = i then d else 0) (hd : 0 < d) :
    Indexes w (items.insert k v) (bump index i d) where
  sized j := by
    rw [size_bump, total_insert, total_erase_of_notMem (AList.lookup_eq_none.mp hk), ← h.sized,
      hw]
    split
    next hj => rw [hj, Int.add_comm]
    next => rw [Int.zero_add]
  positive := forall_insert h.positive (by have := h.nonneg i; omega)

/-- An item comes that weighs nothing here. -/
theorem Indexes.add_other (h : Indexes w items index) (hk : items.lookup k = none)
    (hw : ∀ j, w j v = 0) : Indexes w (items.insert k v) index where
  sized j := by
    rw [total_insert, total_erase_of_notMem (AList.lookup_eq_none.mp hk), hw, Int.zero_add,
      h.sized]
  positive := h.positive

theorem total_nonneg {f : κ → ν → ℤ} (h : ∀ k v, items.lookup k = some v → 0 ≤ f k v) :
    0 ≤ total f items := by
  refine List.sum_nonneg fun x hx => ?_
  obtain ⟨e, he, rfl⟩ := List.mem_map.mp hx
  exact h e.1 e.2 (AList.mem_lookup_iff.mpr he)

/-- **An item goes.** -/
theorem Indexes.remove (h : Indexes w items index) (hk : items.lookup k = some v)
    (hw : ∀ j, w j v = if j = i then d else 0)
    (hrest : ∀ k' v', items.lookup k' = some v' → 0 ≤ w i v') :
    Indexes w (items.erase k) (prune (bump index i (-d)) i) := by
  have hleft : ∀ j, size (bump index i (-d)) j = total (fun _ v => w j v) (items.erase k) := by
    intro j
    have herase := total_erase_of_lookup (f := fun _ v => w j v) hk
    rw [hw, ← h.sized] at herase
    rw [size_bump]
    split
    next hj =>
      rw [hj, if_pos rfl] at herase
      rw [hj]
      omega
    next hj =>
      rw [if_neg hj, Int.zero_add] at herase
      exact herase.symm
  have hge : 0 ≤ size (bump index i (-d)) i := by
    rw [hleft]
    refine total_nonneg fun k' v' hv' => hrest k' v' ?_
    by_cases hkk : k' = k
    · rw [hkk, AList.lookup_erase] at hv'
      cases hv'
    · rwa [AList.lookup_erase_ne hkk] at hv'
  constructor
  · intro j
    rw [size_prune hge, hleft]
  · intro j n hn
    by_cases hj : j = i
    · rw [hj, lookup_prune_self] at hn
      simpa using (Option.filter_eq_some_iff.mp hn).2
    · rw [lookup_prune_of_ne hj, bump, AList.lookup_insert_ne hj] at hn
      exact h.positive j n hn

/-- An item goes that weighs nothing here. -/
theorem Indexes.remove_other (h : Indexes w items index) (hk : items.lookup k = some v)
    (hw : ∀ j, w j v = 0) : Indexes w (items.erase k) index where
  sized j := by
    rw [h.sized, ← total_erase_of_lookup hk, hw, Int.zero_add]
  positive := h.positive

end Indexes

/-! ### Some of the items -/

theorem cast_total (f : κ → ν → ℕ) (items : Map κ ν) :
    ((total f items : ℕ) : ℤ) = total (fun k v => (f k v : ℤ)) items := by
  unfold total
  induction items.entries with
  | nil => rfl
  | cons e l ih =>
      rw [List.map_cons, List.sum_cons, Int.natCast_add, ih, List.map_cons, List.sum_cons]

/-- When a map keeps what `g` makes of the items of another, a total over it is one over the
    other. -/
theorem total_of_bind [DecidableEq κ] {ν' M : Type*} [AddCommMonoid M] {g : κ → ν → Option ν'}
    {f : κ → ν' → M} (items : Map κ ν) (kept : Map κ ν')
    (h : ∀ k, kept.lookup k = (items.lookup k).bind (g k)) :
    total f kept = total (fun k v => (g k v).elim 0 (f k)) items := by
  induction items using AList.insertRec generalizing kept with
  | H0 =>
      refine total_eq_zero fun k v hk => ?_
      rw [h k] at hk
      cases hk
  | IH k v items hk ih =>
      have hrest : ∀ j, (kept.erase k).lookup j = (items.lookup j).bind (g j) := by
        intro j
        by_cases hj : j = k
        · rw [hj, AList.lookup_erase, AList.lookup_eq_none.mpr hk, Option.bind_none]
        · rw [AList.lookup_erase_ne hj, h, AList.lookup_insert_ne hj]
      have hself := h k
      rw [AList.lookup_insert, Option.bind_some] at hself
      rw [total_insert, total_erase_of_notMem hk, ← ih _ hrest]
      rcases hg : g k v with _ | v'
      · rw [hg] at hself
        rw [Option.elim_none, zero_add, total_erase_of_notMem (AList.lookup_eq_none.mp hself)]
      · rw [hg] at hself
        rw [Option.elim_some, total_erase_of_lookup hself]

end TotalIndex
