import Mathlib.Data.Int.Notation
import Mathlib.Tactic.Common

/-!
# Best levels of a ladder

A ladder is a set of integer levels.  One side of a book prefers its high levels, the other
its low ones; `d` is 1 or -1 and `d * p ≤ d * q` says that `q` is at least as good as `p`,
so that every fact is stated once.  `Best d P none p` says that `p` is the best level of
`P`, or that `P` is empty and `p` is one of the values that stand for no level.

`walk` steps from a level to the next until a level is not skipped or its steps are used
up.
-/

namespace Ladder

/-- The best level of `P`, or a value of `empty` when there is none. -/
def Best (d : ℤ) (P : ℤ → Prop) (empty : ℤ → Prop) (p : ℤ) : Prop :=
  (P p ∧ ∀ q, P q → d * q ≤ d * p) ∨ ((∀ q, ¬ P q) ∧ empty p)

/-- Step by `d` over the levels that `skip` names, at most `n` times. -/
def walk (skip : ℤ → Bool) (d : ℤ) : ℕ → ℤ → ℤ
  | 0, p => p
  | n + 1, p => if skip p then walk skip d n (p + d) else p

variable {d p px : ℤ} {P P' : ℤ → Prop} {empty : ℤ → Prop}

theorem Best.congr (h : Best d P empty p) (hP : ∀ q, P' q ↔ P q) : Best d P' empty p := by
  rcases h with ⟨hp, hbest⟩ | ⟨hnone, hp⟩
  · exact .inl ⟨(hP p).mpr hp, fun q hq => hbest q ((hP q).mp hq)⟩
  · exact .inr ⟨fun q hq => hnone q ((hP q).mp hq), hp⟩

/-- No level is better than the best. -/
theorem Best.le (h : Best d P empty p) {q : ℤ} (hq : P q) : d * q ≤ d * p := by
  rcases h with ⟨-, hbest⟩ | ⟨hnone, -⟩
  · exact hbest q hq
  · exact absurd hq (hnone q)

/-- **A level is added.**  The best moves to it when it is better. -/
theorem Best.insert (hd : d = 1 ∨ d = -1) (h : Best d P empty p)
    (hempty : ∀ q, empty q → d * q ≤ d * px) (hP : ∀ q, P' q ↔ q = px ∨ P q) :
    Best d P' empty (if d * p < d * px then px else p) := by
  left
  split
  next hlt =>
    refine ⟨(hP px).mpr (.inl rfl), ?_⟩
    intro q hq
    rcases (hP q).mp hq with rfl | hq
    · exact Int.le_refl _
    · have := h.le hq
      omega
  next hle =>
    rcases h with ⟨hp, hbest⟩ | ⟨hnone, hp⟩
    · refine ⟨(hP p).mpr (.inr hp), ?_⟩
      intro q hq
      rcases (hP q).mp hq with rfl | hq
      · omega
      · exact hbest q hq
    · -- the value for an empty side is the level itself
      have hle' := hempty p hp
      have heq : p = px := by rcases hd with rfl | rfl <;> omega
      refine ⟨(hP p).mpr (.inl heq), ?_⟩
      intro q hq
      rcases (hP q).mp hq with rfl | hq
      · omega
      · exact absurd hq (hnone q)

/-- Where a walk ends: every level it has passed was skipped, and it has used its steps or
    stands on one that is not. -/
theorem walk_spec (skip : ℤ → Bool) (d : ℤ) (n : ℕ) (p : ℤ) :
    ∃ k : ℕ, k ≤ n ∧ walk skip d n p = p + d * k ∧ (∀ j : ℕ, j < k → skip (p + d * j) = true) ∧
      (k = n ∨ skip (p + d * k) = false) := by
  induction n generalizing p with
  | zero =>
      exact ⟨0, Nat.le_refl 0, by simp [walk], fun j hj => absurd hj (Nat.not_lt_zero j), .inl rfl⟩
  | succ n ih =>
      rcases hskip : skip p with _ | _
      · exact ⟨0, Nat.zero_le _, by simp [walk, hskip],
          fun j hj => absurd hj (Nat.not_lt_zero j), .inr (by simpa using hskip)⟩
      · obtain ⟨k, hk, hend, hpassed, hstop⟩ := ih (p + d)
        have hshift : ∀ j : ℕ, p + d + d * j = p + d * (j + 1 : ℕ) := by
          intro j
          rw [Int.natCast_succ, Int.mul_add, Int.mul_one]
          omega
        refine ⟨k + 1, Nat.succ_le_succ hk, ?_, ?_, ?_⟩
        · rw [walk, if_pos hskip, hend, hshift]
        · intro j hj
          cases j with
          | zero => simpa using hskip
          | succ j =>
              rw [← hshift]
              exact hpassed j (Nat.lt_of_succ_lt_succ hj)
        · rw [← hshift]
          exact hstop.imp_left fun heq => by rw [heq]

/-- **Levels are taken away.**  A walk from the old best towards worse levels ends at the new
    best, or at its last level when nothing is left. -/
theorem Best.walk {skip : ℤ → Bool} {n : ℕ} (hd : d = 1 ∨ d = -1)
    (hstart : ∀ q, P q → d * q ≤ d * p) (hskip : ∀ q, skip q = true ↔ ¬ P q)
    (hreach : ∀ q, P q → d * (p - d * n) ≤ d * q) (hempty : empty (p - d * n)) :
    Best d P empty (walk skip (-d) n p) := by
  obtain ⟨k, hk, hend, hpassed, hstop⟩ := walk_spec skip (-d) n p
  have hmul : ∀ j : ℕ, -d * (j : ℤ) = -(d * j) := fun j => Int.neg_mul d j
  -- a level of `P` is no better than where the walk ends
  have hnone : ∀ q, P q → d * q ≤ d * (p + -d * k) := by
    intro q hq
    by_contra hlt
    have hle := hstart q hq
    obtain ⟨j, hj, hat⟩ : ∃ j : ℕ, j < k ∧ q = p + -d * j := by
      rcases hd with rfl | rfl
      · exact ⟨(p - q).toNat, by omega, by omega⟩
      · exact ⟨(q - p).toNat, by omega, by omega⟩
    exact (hskip q).mp (hat ▸ hpassed j hj) hq
  rw [hend]
  by_cases hat : P (p + -d * k)
  · exact .inl ⟨hat, hnone⟩
  · right
    have hkn : k = n := by
      rcases hstop with heq | hfalse
      · exact heq
      · rw [(hskip _).mpr hat] at hfalse
        cases hfalse
    have hbottom : p + -d * k = p - d * n := by
      rw [hmul, hkn]
      omega
    refine ⟨?_, hbottom ▸ hempty⟩
    intro q hq
    have h₁ := hnone q hq
    have h₂ := hreach q hq
    rw [hbottom] at h₁
    have heq : q = p - d * n := by rcases hd with rfl | rfl <;> omega
    rw [heq, ← hbottom] at hq
    exact hat hq

end Ladder
