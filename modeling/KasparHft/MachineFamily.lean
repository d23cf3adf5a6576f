import KasparHft.Machine
import Mathlib.Logic.Function.Basic

/-!
# Families of machines

Machines side by side, one for each index, each with a state of its own.  An event is sent to
one of them, and what it emits is marked with its index.  A run of the family is one run of each
member over the events sent to it, and it aborts exactly when one of these does.
-/

namespace Machine

variable {ι σ ε ο α : Type*} [DecidableEq ι]

/-- One event of a family. -/
def family (step : ι → σ → ε → Option (σ × List ο)) (s : ι → σ) (e : ι × ε) :
    Option ((ι → σ) × List (ι × ο)) :=
  (step e.1 (s e.1) e.2).map fun r => (Function.update s e.1 r.1, r.2.map (Prod.mk e.1))

/-- What is marked with one index. -/
def part (i : ι) (l : List (ι × α)) : List α :=
  l.filterMap fun x => if x.1 = i then some x.2 else none

@[simp] theorem part_nil (i : ι) : part i ([] : List (ι × α)) = [] := rfl

@[simp] theorem part_append (i : ι) (l₁ l₂ : List (ι × α)) :
    part i (l₁ ++ l₂) = part i l₁ ++ part i l₂ := List.filterMap_append

theorem part_cons_self (i : ι) (x : α) (l : List (ι × α)) : part i ((i, x) :: l) = x :: part i l :=
  List.filterMap_cons_some (if_pos rfl)

theorem part_cons_of_ne {i j : ι} (h : j ≠ i) (x : α) (l : List (ι × α)) :
    part i ((j, x) :: l) = part i l := List.filterMap_cons_none (if_neg h)

theorem part_map_self (i : ι) (l : List α) : part i (l.map (Prod.mk i)) = l := by
  induction l with
  | nil => rfl
  | cons x l ih => rw [List.map_cons, part_cons_self, ih]

theorem part_map_of_ne {i j : ι} (h : j ≠ i) (l : List α) : part i (l.map (Prod.mk j)) = [] := by
  induction l with
  | nil => rfl
  | cons x l ih => rw [List.map_cons, part_cons_of_ne h, ih]

/-- One thing sent to each of some members reaches a member as often as it is listed. -/
theorem part_map_const (i : ι) (x : α) (js : List ι) :
    part i (js.map fun j => (j, x)) = List.replicate (js.count i) x := by
  induction js with
  | nil => rfl
  | cons j js ih =>
      by_cases hj : j = i
      · subst hj
        rw [List.map_cons, part_cons_self, ih, List.count_cons_self, List.replicate_succ]
      · rw [List.map_cons, part_cons_of_ne hj, ih, List.count_cons_of_ne hj]

section Runs

variable {step : ι → σ → ε → Option (σ × List ο)} {s t : ι → σ} {es : List (ι × ε)}

theorem family_eq_some {e : ι × ε} {o : List (ι × ο)} :
    family step s e = some (t, o) ↔
      ∃ r o', step e.1 (s e.1) e.2 = some (r, o') ∧ t = Function.update s e.1 r ∧
        o = o'.map (Prod.mk e.1) := by
  unfold family
  rw [Option.map_eq_some_iff]
  constructor
  · rintro ⟨⟨r, o'⟩, hstep, heq⟩
    cases heq
    exact ⟨r, o', hstep, rfl, rfl⟩
  · rintro ⟨r, o', hstep, rfl, rfl⟩
    exact ⟨(r, o'), hstep, rfl⟩

/-- Each member runs over what is sent to it. -/
theorem run_part {out : List (ι × ο)} (h : run (family step) s es = some (t, out)) (i : ι) :
    run (step i) (s i) (part i es) = some (t i, part i out) := by
  induction es generalizing s out with
  | nil =>
      cases h
      rfl
  | cons e es ih =>
      obtain ⟨s₁, o, os, hstep, hrun, rfl⟩ := run_cons.mp h
      obtain ⟨j, x⟩ := e
      obtain ⟨r, o', hmember, rfl, rfl⟩ := family_eq_some.mp hstep
      have hrest := ih hrun
      rw [part_append]
      by_cases hj : j = i
      · subst hj
        rw [Function.update_self] at hrest
        rw [part_cons_self, part_map_self]
        exact run_cons.mpr ⟨r, o', part j os, hmember, hrest, rfl⟩
      · rw [Function.update_of_ne (Ne.symm hj)] at hrest
        rw [part_cons_of_ne hj, part_map_of_ne hj]
        exact hrest

/-- The family runs as far as its members do. -/
theorem exists_run_family
    (h : ∀ i, ∃ r, run (step i) (s i) (part i es) = some r) :
    ∃ t out, run (family step) s es = some (t, out) := by
  induction es generalizing s with
  | nil => exact ⟨s, [], rfl⟩
  | cons e es ih =>
      obtain ⟨j, x⟩ := e
      obtain ⟨⟨q, out⟩, hj⟩ := h j
      rw [part_cons_self] at hj
      obtain ⟨r, o, os, hmember, hrest, -⟩ := run_cons.mp hj
      have hstep : family step s (j, x) = some (Function.update s j r, o.map (Prod.mk j)) :=
        family_eq_some.mpr ⟨r, o, hmember, rfl, rfl⟩
      obtain ⟨t, out', hrun⟩ := @ih (Function.update s j r) <| by
        intro i
        by_cases hi : i = j
        · subst hi
          rw [Function.update_self]
          exact ⟨_, hrest⟩
        · obtain ⟨p, hp⟩ := h i
          rw [part_cons_of_ne (Ne.symm hi)] at hp
          rw [Function.update_of_ne hi]
          exact ⟨p, hp⟩
      exact ⟨t, _, run_cons.mpr ⟨_, _, out', hstep, hrun, rfl⟩⟩

end Runs

end Machine
