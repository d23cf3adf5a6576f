import Mathlib.Data.List.AList
import Mathlib.Algebra.BigOperators.Group.List.Basic
import Mathlib.Algebra.Order.BigOperators.Group.List

/-!
# Finite maps and totals over them

A finite map is Mathlib's `AList`; the hash and flat maps of the source are read as
one, since nothing depends on their iteration order.  `total f m` adds `f` over the
entries of `m`: a level size is such a total, and the rules below say how one write
changes it.  The last section is about what holds of every entry.
-/

namespace AssocMap

variable {κ ν : Type*}

/-- A finite map from `κ` to `ν`. -/
abbrev Map (κ ν : Type*) := AList fun _ : κ => ν

section Totals

variable {M : Type*} [AddCommMonoid M]

/-- The sum of `f` over the entries of a map. -/
def total (f : κ → ν → M) (m : Map κ ν) : M :=
  (m.entries.map fun e => f e.1 e.2).sum

variable [DecidableEq κ] {f : κ → ν → M} {m : Map κ ν} {k : κ} {v : ν}

theorem total_congr {g : κ → ν → M} (h : ∀ k v, m.lookup k = some v → f k v = g k v) :
    total f m = total g m := by
  unfold total
  congr 1
  apply List.map_congr_left
  intro e he
  exact h e.1 e.2 (AList.mem_lookup_iff.mpr he)

theorem total_eq_zero (h : ∀ k v, m.lookup k = some v → f k v = 0) : total f m = 0 := by
  unfold total
  apply List.sum_eq_zero
  intro x hx
  obtain ⟨e, he, rfl⟩ := List.mem_map.mp hx
  exact h e.1 e.2 (AList.mem_lookup_iff.mpr he)

theorem total_insert : total f (m.insert k v) = f k v + total f (m.erase k) := by
  have hentries : (m.insert k v).entries = ⟨k, v⟩ :: (m.erase k).entries := rfl
  unfold total
  rw [hentries, List.map_cons, List.sum_cons]

theorem total_erase_of_notMem (h : k ∉ m) : total f (m.erase k) = total f m := by
  unfold total
  rw [show (m.erase k).entries = m.entries from List.kerase_of_notMem_keys h]

/-- Taking out a key takes out exactly its own value. -/
theorem total_erase_of_lookup (h : m.lookup k = some v) :
    f k v + total f (m.erase k) = total f m := by
  have hkey : k ∈ m.entries.keys := AList.lookup_isSome.mp (by rw [h]; rfl)
  obtain ⟨w, l₁, l₂, _, hentries, hkerase⟩ := List.exists_of_kerase hkey
  have hmem : (⟨k, w⟩ : Sigma fun _ : κ => ν) ∈ m.entries := by rw [hentries]; simp
  have hw : m.lookup k = some w := AList.mem_lookup_iff.mpr hmem
  have hwv : w = v := Option.some.inj (hw.symm.trans h)
  subst hwv
  have herase : (m.erase k).entries = l₁ ++ l₂ := hkerase
  simp only [total, herase, hentries, List.map_append, List.map_cons, List.sum_append,
    List.sum_cons]
  exact add_left_comm _ _ _

/-- A total depends on the lookups alone. -/
theorem total_eq_of_lookup {m' : Map κ ν} (h : ∀ k, m.lookup k = m'.lookup k) :
    total f m = total f m' := by
  have hperm : m.entries.Perm m'.entries := by
    refine List.lookup_ext m.nodupKeys m'.nodupKeys fun k v => ?_
    change v ∈ m.lookup k ↔ v ∈ m'.lookup k
    rw [h]
  exact (hperm.map _).sum_eq

section Ordered

variable [PartialOrder M] [IsOrderedAddMonoid M] {g : κ → ν → M}

omit [DecidableEq κ] in
theorem total_nonneg (h : ∀ k v, 0 ≤ f k v) : 0 ≤ total f m := by
  refine List.sum_nonneg fun x hx => ?_
  obtain ⟨e, -, rfl⟩ := List.mem_map.mp hx
  exact h e.1 e.2

/-- The total of a map whose keys are among those of another with larger values. -/
theorem total_le_total {m' : Map κ ν} (h0 : ∀ k v, 0 ≤ g k v)
    (h : ∀ k v, m.lookup k = some v → ∃ w, m'.lookup k = some w ∧ f k v ≤ g k w) :
    total f m ≤ total g m' := by
  induction m using AList.insertRec generalizing m' with
  | H0 => exact total_nonneg h0
  | IH k v m hk ih =>
      obtain ⟨w, hw, hle⟩ := h k v (AList.lookup_insert m)
      rw [total_insert, total_erase_of_notMem hk, ← total_erase_of_lookup hw]
      refine add_le_add hle (ih fun i u hi => ?_)
      have hne : i ≠ k := by
        rintro rfl
        exact hk (AList.lookup_isSome.mp (by rw [hi]; rfl))
      rw [AList.lookup_erase_ne hne]
      exact h i u (by rw [AList.lookup_insert_ne hne, hi])

end Ordered

end Totals

/-! ### Properties of every entry -/

section Entries

variable [DecidableEq κ] {P : ν → Prop} {m : Map κ ν} {k : κ} {v : ν}

/-- What every lookup says is decided by the entries. -/
theorem forall_lookup_iff {Q : κ → ν → Prop} :
    (∀ i w, m.lookup i = some w → Q i w) ↔ ∀ x ∈ m.entries, Q x.1 x.2 := by
  constructor
  · intro h x hx
    exact h x.1 x.2 (AList.mem_lookup_iff.mpr hx)
  · intro h i w hi
    exact h ⟨i, w⟩ (AList.mem_lookup_iff.mp hi)

theorem entries_eq_nil_iff : m.entries = [] ↔ ∀ i, m.lookup i = none := by
  rw [List.eq_nil_iff_forall_not_mem]
  constructor
  · intro h i
    rcases hi : m.lookup i with _ | w
    · rfl
    · exact absurd (AList.mem_lookup_iff.mp hi) (h ⟨i, w⟩)
  · rintro h ⟨i, w⟩ hmem
    rw [← AList.mem_lookup_iff, h i] at hmem
    cases hmem

theorem forall_insert (h : ∀ i w, m.lookup i = some w → P w) (hv : P v) :
    ∀ i w, (m.insert k v).lookup i = some w → P w := by
  intro i w hi
  by_cases hik : i = k
  · rw [hik, AList.lookup_insert] at hi
    exact Option.some.inj hi ▸ hv
  · rw [AList.lookup_insert_ne hik] at hi
    exact h i w hi

theorem forall_erase (h : ∀ i w, m.lookup i = some w → P w) :
    ∀ i w, (m.erase k).lookup i = some w → P w := by
  intro i w hi
  by_cases hik : i = k
  · rw [hik, AList.lookup_erase] at hi
    cases hi
  · rw [AList.lookup_erase_ne hik] at hi
    exact h i w hi

end Entries

end AssocMap
