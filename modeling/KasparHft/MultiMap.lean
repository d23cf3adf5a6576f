import KasparHft.AssocMap
import Mathlib.Data.List.Sort

/-!
# Maps to sets

A map that keeps a set for each key, as an index from values back to keys does.  The sets are
sorted lists.  `add` puts a value in the set of a key and `drop` takes it out, forgetting a key
whose set becomes empty; an index that starts empty never lists an empty set.
-/

namespace MultiMap

open AssocMap (Map)

variable {κ ν : Type*}

section Sets

variable [DecidableEq ν] [LE ν] [DecidableLE ν]

/-- A sorted set after an insertion. -/
def setInsert (v : ν) (s : List ν) : List ν :=
  if v ∈ s then s else s.orderedInsert (· ≤ ·) v

theorem mem_setInsert {v w : ν} {s : List ν} : w ∈ setInsert v s ↔ w = v ∨ w ∈ s := by
  unfold setInsert
  split
  next hv =>
      refine ⟨.inr, ?_⟩
      rintro (rfl | hw)
      · exact hv
      · exact hw
  next => exact List.mem_orderedInsert (· ≤ ·)

theorem mem_foldl_setInsert {w : ν} {vs s : List ν} :
    w ∈ vs.foldl (fun s v => setInsert v s) s ↔ w ∈ vs ∨ w ∈ s := by
  induction vs generalizing s with
  | nil => simp
  | cons v vs ih => rw [List.foldl_cons, ih, mem_setInsert, List.mem_cons, or_left_comm, or_assoc]

end Sets

variable [DecidableEq κ]

/-- The set of a key, empty for a key that is not listed. -/
def values (m : Map κ (List ν)) (k : κ) : List ν := (m.lookup k).getD []

/-- No key is listed with an empty set. -/
def NoneEmpty (m : Map κ (List ν)) : Prop := ∀ k, m.lookup k ≠ some []

theorem noneEmpty_empty : NoneEmpty (∅ : Map κ (List ν)) := fun _ => nofun

variable [DecidableEq ν]

def add [LE ν] [DecidableLE ν] (m : Map κ (List ν)) (k : κ) (v : ν) : Map κ (List ν) :=
  m.insert k (setInsert v (values m k))

def drop (m : Map κ (List ν)) (k : κ) (v : ν) : Map κ (List ν) :=
  match m.lookup k with
  | none => m
  | some s =>
      let rest := s.filter (· ≠ v)
      if rest = [] then m.erase k else m.insert k rest

variable {m : Map κ (List ν)} {k l : κ} {v w : ν}

theorem values_drop : values (drop m k v) l =
    if l = k then (values m l).filter (· ≠ v) else values m l := by
  unfold drop
  rcases hk : m.lookup k with _ | s
  · dsimp only
    split
    next hl => subst hl; simp [values, hk]
    next => rfl
  · dsimp only
    by_cases hl : l = k
    · subst hl
      rw [if_pos rfl, show values m l = s from congrArg (Option.getD · []) hk]
      split
      next hrest => rw [values, AList.lookup_erase, hrest, Option.getD_none]
      next => rw [values, AList.lookup_insert, Option.getD_some]
    · rw [if_neg hl]
      split
      next => rw [values, AList.lookup_erase_ne hl, values]
      next => rw [values, AList.lookup_insert_ne hl, values]

theorem noneEmpty_drop (h : NoneEmpty m) : NoneEmpty (drop m k v) := by
  intro l
  unfold drop
  rcases m.lookup k with _ | s
  · exact h l
  · dsimp only
    by_cases hl : l = k
    · subst hl
      split
      next => rw [AList.lookup_erase]; exact nofun
      next hrest => rw [AList.lookup_insert]; simpa using hrest
    · split
      next => rw [AList.lookup_erase_ne hl]; exact h l
      next => rw [AList.lookup_insert_ne hl]; exact h l

theorem mem_values_foldl_drop {ks : List κ} :
    w ∈ values (ks.foldl (fun m k => drop m k v) m) l ↔ w ∈ values m l ∧ (l ∈ ks → w ≠ v) := by
  induction ks generalizing m with
  | nil => simp
  | cons k ks ih =>
      rw [List.foldl_cons, ih, values_drop, List.mem_cons]
      split
      next hl => simp [hl]; tauto
      next hl => simp [hl]

theorem noneEmpty_foldl_drop {ks : List κ} (h : NoneEmpty m) :
    NoneEmpty (ks.foldl (fun m k => drop m k v) m) := by
  induction ks generalizing m with
  | nil => exact h
  | cons k ks ih => exact ih (noneEmpty_drop h)

section Add

variable [LE ν] [DecidableLE ν]

theorem mem_values_add : w ∈ values (add m k v) l ↔ w ∈ values m l ∨ l = k ∧ w = v := by
  by_cases hl : l = k
  · subst hl
    rw [values, add, AList.lookup_insert, Option.getD_some, mem_setInsert]
    tauto
  · rw [values, add, AList.lookup_insert_ne hl, values]
    tauto

theorem noneEmpty_add (h : NoneEmpty m) : NoneEmpty (add m k v) := by
  intro l
  by_cases hl : l = k
  · subst hl
    rw [add, AList.lookup_insert]
    intro heq
    have hmem : v ∈ setInsert v (values m l) := mem_setInsert.mpr (.inl rfl)
    rw [Option.some.inj heq] at hmem
    exact List.not_mem_nil hmem
  · rw [add, AList.lookup_insert_ne hl]
    exact h l

theorem mem_values_foldl_add {ks : List κ} :
    w ∈ values (ks.foldl (fun m k => add m k v) m) l ↔ w ∈ values m l ∨ l ∈ ks ∧ w = v := by
  induction ks generalizing m with
  | nil => simp
  | cons k ks ih =>
      rw [List.foldl_cons, ih, mem_values_add, List.mem_cons]
      tauto

theorem noneEmpty_foldl_add {ks : List κ} (h : NoneEmpty m) :
    NoneEmpty (ks.foldl (fun m k => add m k v) m) := by
  induction ks generalizing m with
  | nil => exact h
  | cons k ks ih => exact ih (noneEmpty_add h)

end Add

end MultiMap
