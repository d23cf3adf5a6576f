import Mathlib.Data.List.Range
import Mathlib.Data.Nat.Notation

/-!
# Walks over records

A buffer holds records one behind the other, and each says how long it is.  A visit of the record
at a position reads some addresses and says where the next record starts, or stops the walk.  A
walk whose visits only go forward ends, and it reads within a bound exactly when the visits of the
records that it starts do.
-/

namespace RecordWalk

variable {ε : Type*}

/-- What is read at a position, and where the next record starts or why there is none. -/
structure Visit (ε : Type*) where
  reads : List ℕ
  next : Except ε ℕ

/-- Visit the records before `len`: the addresses read, and how the walk ended. -/
def walk (visit : ℕ → Visit ε) (len : ℕ) : ℕ → ℕ → Option (List ℕ × Except ε Unit)
  | 0, _ => none
  | fuel + 1, p =>
      if p < len then
        match (visit p).next with
        | .error e => some ((visit p).reads, .error e)
        | .ok q => (walk visit len fuel q).map fun r => ((visit p).reads ++ r.1, r.2)
      else some ([], .ok ())

/-- A walk from `p` comes to a record at `q`. -/
inductive Starts (visit : ℕ → Visit ε) (len : ℕ) : ℕ → ℕ → Prop
  | here {p : ℕ} (hp : p < len) : Starts visit len p p
  | later {p q r : ℕ} (hp : p < len) (hnext : (visit p).next = .ok q)
      (hrest : Starts visit len q r) : Starts visit len p r

/-- A range of addresses ends before `len`. -/
theorem forall_range'_lt_iff {p n len : ℕ} (hn : 0 < n) :
    (∀ a ∈ List.range' p n, a < len) ↔ p + n ≤ len := by
  constructor
  · intro hall
    have hlast := hall (p + (n - 1)) (List.mem_range'_1.mpr (by omega))
    omega
  · intro hle a ha
    have := List.mem_range'_1.mp ha
    omega

section Walk

variable {visit : ℕ → Visit ε} {len : ℕ}

/-- **A walk that goes forward ends**, on fuel for each address. -/
theorem walk_returns (hforward : ∀ p q, (visit p).next = .ok q → p < q) (fuel p : ℕ)
    (hpos : 0 < fuel) (hfuel : len < fuel + p) : ∃ r, walk visit len fuel p = some r := by
  induction fuel generalizing p with
  | zero => cases hpos
  | succ fuel ih =>
      unfold walk
      split
      next hp =>
        split
        next e hnext => exact ⟨_, rfl⟩
        next q hnext =>
          have hpq := hforward p q hnext
          obtain ⟨r, hr⟩ := ih q (by omega) (by omega)
          rw [hr]
          exact ⟨_, rfl⟩
      next => exact ⟨_, rfl⟩

/-- **What a walk reads** has a property exactly when what is read at each record it comes to
    does. -/
theorem forall_reads_iff {P : ℕ → Prop} {fuel p : ℕ} {r : List ℕ × Except ε Unit}
    (hwalk : walk visit len fuel p = some r) :
    (∀ a ∈ r.1, P a) ↔ ∀ q, Starts visit len p q → ∀ a ∈ (visit q).reads, P a := by
  induction fuel generalizing p r with
  | zero => cases hwalk
  | succ fuel ih =>
      unfold walk at hwalk
      split at hwalk
      next hp =>
        split at hwalk
        next e hnext =>
          cases hwalk
          constructor
          · intro hall q hq
            cases hq with
            | here _ => exact hall
            | later _ hnext' _ => cases hnext.symm.trans hnext'
          · intro hall
            exact hall p (.here hp)
        next q hnext =>
          obtain ⟨r', hr', rfl⟩ := Option.map_eq_some_iff.mp hwalk
          rw [List.forall_mem_append, ih hr']
          constructor
          · rintro ⟨hfirst, hrest⟩ s hs
            cases hs with
            | here _ => exact hfirst
            | later _ hnext' hs' =>
                cases hnext.symm.trans hnext'
                exact hrest s hs'
          · intro hall
            exact ⟨hall p (.here hp), fun s hs => hall s (.later hp hnext hs)⟩
      next hp =>
        cases hwalk
        refine iff_of_true (fun a ha => nomatch ha) fun q hq => ?_
        cases hq with
        | here hp' => exact absurd hp' hp
        | later hp' _ _ => exact absurd hp' hp

end Walk

end RecordWalk
