import Mathlib.Algebra.Order.BigOperators.Group.List
import Mathlib.Algebra.Order.Group.MinMax
import Mathlib.Tactic.Common

/-!
# Allocation in turn

A quantity is handed out over a list of capacities, each taking what it can of what is left.
Only the last one served can be served in part, and what is handed out in all is the quantity,
or all the capacity there is.  Serving the list from its other end hands out the same in all,
but to the same takers only when the order does not matter.
-/

namespace Allocation

variable {M : Type*} [AddCommGroup M] [LinearOrder M]

/-- What each capacity takes of `q`, served in turn. -/
def allocate : List M → M → List M
  | [], _ => []
  | c :: cs, q => min c q :: allocate cs (q - min c q)

variable {cs ds : List M} {c q : M}

@[simp] theorem allocate_nil (q : M) : allocate [] q = [] := rfl

@[simp] theorem allocate_cons (c : M) (cs : List M) (q : M) :
    allocate (c :: cs) q = min c q :: allocate cs (q - min c q) := rfl

@[simp] theorem length_allocate (cs : List M) (q : M) :
    (allocate cs q).length = cs.length := by
  induction cs generalizing q with
  | nil => rfl
  | cons c cs ih => rw [allocate_cons, List.length_cons, List.length_cons, ih]

theorem allocate_append (cs ds : List M) (q : M) :
    allocate (cs ++ ds) q = allocate cs q ++ allocate ds (q - (allocate cs q).sum) := by
  induction cs generalizing q with
  | nil => simp
  | cons c cs ih =>
      rw [List.cons_append, allocate_cons, allocate_cons, ih, List.cons_append, List.sum_cons,
        sub_add_eq_sub_sub]

theorem allocate_zero (hcs : ∀ c ∈ cs, 0 ≤ c) : allocate cs 0 = cs.map fun _ => 0 := by
  induction cs with
  | nil => rfl
  | cons c cs ih =>
      obtain ⟨hc, hcs⟩ := List.forall_mem_cons.mp hcs
      rw [allocate_cons, min_eq_right hc, sub_zero, ih hcs]
      rfl

variable [IsOrderedAddMonoid M]

/-- There is enough for all. -/
theorem allocate_of_sum_le (hcs : ∀ c ∈ cs, 0 ≤ c) (hq : cs.sum ≤ q) : allocate cs q = cs := by
  induction cs generalizing q with
  | nil => rfl
  | cons c cs ih =>
      obtain ⟨hc, hcs⟩ := List.forall_mem_cons.mp hcs
      rw [List.sum_cons] at hq
      have hle : c ≤ q := (le_add_of_nonneg_right (List.sum_nonneg hcs)).trans hq
      rw [allocate_cons, min_eq_left hle, ih hcs (le_sub_iff_add_le'.mpr hq)]

/-- **Conservation.** -/
theorem sum_allocate (hcs : ∀ c ∈ cs, 0 ≤ c) (hq : 0 ≤ q) :
    (allocate cs q).sum = min q cs.sum := by
  induction cs generalizing q with
  | nil => simp [hq]
  | cons c cs ih =>
      obtain ⟨hc, hcs⟩ := List.forall_mem_cons.mp hcs
      have hleft : 0 ≤ q - min c q := sub_nonneg.mpr (min_le_right c q)
      rw [allocate_cons, List.sum_cons, List.sum_cons, ih hcs hleft]
      rcases le_total c q with hle | hle
      · rw [min_eq_left hle, ← min_add_add_left, add_sub_cancel]
      · rw [min_eq_right hle, sub_self, min_eq_left (List.sum_nonneg hcs), add_zero,
          min_eq_left (hle.trans (le_add_of_nonneg_right (List.sum_nonneg hcs)))]

/-- Nobody takes a negative quantity or more than his capacity. -/
theorem allocate_bounds (hcs : ∀ c ∈ cs, 0 ≤ c) (hq : 0 ≤ q) :
    List.Forall₂ (fun x c => 0 ≤ x ∧ x ≤ c) (allocate cs q) cs := by
  induction cs generalizing q with
  | nil => exact .nil
  | cons c cs ih =>
      obtain ⟨hc, hcs⟩ := List.forall_mem_cons.mp hcs
      exact .cons ⟨le_min hc hq, min_le_left c q⟩
        (ih hcs (sub_nonneg.mpr (min_le_right c q)))

/-- **Order.**  The two ends serve everyone alike exactly when there is at most one to serve, or
    enough for all. -/
theorem allocate_reverse_iff (hcs : ∀ c ∈ cs, 0 < c) (hq : 0 < q) :
    (allocate cs.reverse q).reverse = allocate cs q ↔ cs.length ≤ 1 ∨ cs.sum ≤ q := by
  have hnonneg : ∀ c ∈ cs, 0 ≤ c := fun c hc => (hcs c hc).le
  constructor
  · intro heq
    rw [or_iff_not_imp_left]
    intro hlen
    by_contra hlt
    rw [not_le] at hlt
    obtain ⟨c, rest, rfl⟩ := List.exists_cons_of_ne_nil
      (List.ne_nil_of_length_pos (lt_of_lt_of_le Nat.zero_lt_one (not_le.mp hlen).le))
    obtain ⟨hc, hrest⟩ := List.forall_mem_cons.mp hcs
    have hne : rest ≠ [] := by
      rintro rfl
      exact hlen (le_refl _)
    have hpos : 0 < rest.sum := List.sum_pos rest hrest hne
    have hrev : ∀ x ∈ rest.reverse, 0 ≤ x := fun x hx => (hrest x (List.mem_reverse.mp hx)).le
    -- the first is the last to be served from the other end
    have hfirst : min c (q - min q rest.sum) = min c q := by
      rw [List.reverse_cons, allocate_append, sum_allocate hrev hq.le, List.sum_reverse,
        allocate_cons, allocate_nil, List.reverse_append, allocate_cons] at heq
      exact (List.cons.inj heq).1
    rw [List.sum_cons] at hlt
    rcases le_total q rest.sum with hle | hle
    · rw [min_eq_left hle, sub_self, min_eq_right hc.le] at hfirst
      exact absurd hfirst (lt_min hc hq).ne
    · rw [min_eq_right hle, min_eq_right (sub_le_iff_le_add.mpr hlt.le)] at hfirst
      rcases le_total c q with hcq | hcq
      · rw [min_eq_left hcq, sub_eq_iff_eq_add] at hfirst
        exact absurd hfirst hlt.ne
      · rw [min_eq_right hcq, sub_eq_self] at hfirst
        exact absurd hfirst hpos.ne'
  · rintro (hlen | hle)
    · rcases cs with _ | ⟨c, _ | ⟨d, cs⟩⟩
      · rfl
      · rfl
      · simp at hlen
    · have hrev : ∀ c ∈ cs.reverse, 0 ≤ c := fun c hc => hnonneg c (List.mem_reverse.mp hc)
      rw [allocate_of_sum_le hnonneg hle,
        allocate_of_sum_le hrev (by rwa [List.sum_reverse]), List.reverse_reverse]

end Allocation
