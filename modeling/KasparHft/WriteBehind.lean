import Mathlib.Algebra.BigOperators.Group.List.Basic
import Mathlib.Algebra.Order.Group.Nat
import Mathlib.Data.List.Chain
import Mathlib.Data.List.ModifyLast
import Mathlib.Data.List.Range

/-!
# Buffers that are written behind

Entries are collected in order and written in order, some time later; the last is still being
filled.  What is written of a buffer and what is left of it are together what was left before, so
nothing is written twice or never, as long as nothing is taken out but what is written.

The second section is about totals over the entries, the third about keys at even distances.
-/

namespace WriteBehind

variable {α β : Type*}

/-- Entries in order; those before `upto` are written. -/
structure Buffer (α : Type*) where
  entries : List α
  upto : ℕ

/-- The entries that are not written. -/
def Buffer.pending (b : Buffer α) : List α := b.entries.drop b.upto

/-- What is to be written so that the entries before `last` are. -/
def Buffer.unwritten (b : Buffer α) (last : ℕ) : List α := (b.entries.take last).drop b.upto

section Pending

variable {b : Buffer α}

/-- **Writing keeps the entries**: what is written and what is left. -/
theorem unwritten_append_pending {last : ℕ} (h : b.upto ≤ last) :
    b.unwritten last ++ Buffer.pending ⟨b.entries, last⟩ = b.pending := by
  have hlast : last = b.upto + (last - b.upto) := by omega
  unfold Buffer.unwritten Buffer.pending
  rw [List.drop_take]
  conv_lhs =>
    rhs
    rw [hlast, ← List.drop_drop]
  exact List.take_append_drop _ _

theorem pending_append (h : b.upto ≤ b.entries.length) (xs : List α) :
    Buffer.pending ⟨b.entries ++ xs, b.upto⟩ = b.pending ++ xs :=
  List.drop_append_of_le_length h

theorem pending_concat {past : List α} {x : α} {upto : ℕ} (h : upto ≤ past.length) :
    Buffer.pending ⟨past ++ [x], upto⟩ = Buffer.pending ⟨past, upto⟩ ++ [x] :=
  List.drop_append_of_le_length h

/-- Filling the last entry. -/
theorem pending_modifyLast (h : b.upto < b.entries.length) (f : α → α) :
    Buffer.pending ⟨b.entries.modifyLast f, b.upto⟩ = b.pending.modifyLast f := by
  obtain ⟨entries, upto⟩ := b
  obtain ⟨past, x, rfl⟩ := List.eq_nil_or_concat entries |>.resolve_left (by
    rintro rfl
    exact Nat.not_lt_zero _ h)
  have hupto : upto ≤ past.length := by
    simp at h
    omega
  dsimp only
  rw [List.concat_eq_append, List.modifyLast_concat, pending_concat hupto, pending_concat hupto,
    List.modifyLast_concat]

end Pending

/-! ### The last entry -/

theorem length_modifyLast (f : α → α) (xs : List α) : (xs.modifyLast f).length = xs.length := by
  rcases List.eq_nil_or_concat xs with rfl | ⟨past, x, rfl⟩
  · rfl
  · rw [List.concat_eq_append, List.modifyLast_concat, List.length_append, List.length_append]
    rfl

theorem getLast?_modifyLast (f : α → α) (xs : List α) :
    (xs.modifyLast f).getLast? = xs.getLast?.map f := by
  rcases List.eq_nil_or_concat xs with rfl | ⟨past, x, rfl⟩
  · rfl
  · rw [List.concat_eq_append, List.modifyLast_concat, List.getLast?_concat, List.getLast?_concat]
    rfl

/-- What filling does not change. -/
theorem map_modifyLast {f : α → α} {g : α → β} (h : ∀ x, g (f x) = g x) (xs : List α) :
    (xs.modifyLast f).map g = xs.map g := by
  rcases List.eq_nil_or_concat xs with rfl | ⟨past, x, rfl⟩
  · rfl
  · rw [List.concat_eq_append, List.modifyLast_concat, List.map_append, List.map_append]
    simp [h]

/-! ### Totals -/

section Totals

variable {M : Type*} [AddCommMonoid M] {f : α → M}

def total (f : α → M) (xs : List α) : M := (xs.map f).sum

@[simp] theorem total_nil : total f [] = 0 := rfl

@[simp] theorem total_append (xs ys : List α) : total f (xs ++ ys) = total f xs + total f ys := by
  simp [total]

@[simp] theorem total_singleton (x : α) : total f [x] = f x := by simp [total]

theorem total_add (f g : α → M) (xs : List α) :
    total (fun x => f x + g x) xs = total f xs + total g xs := List.sum_map_add

theorem total_map (g : β → α) (xs : List β) : total f (xs.map g) = total (f ∘ g) xs := by
  rw [total, total, List.map_map]

theorem total_eq_zero {xs : List α} (h : ∀ x ∈ xs, f x = 0) : total f xs = 0 :=
  List.sum_eq_zero fun m hm => by
    obtain ⟨x, hx, rfl⟩ := List.mem_map.mp hm
    exact h x hx

/-- What the last entry gains, the total gains. -/
theorem total_modifyLast {g : α → α} {d : M} {xs : List α} (hne : xs ≠ [])
    (h : ∀ x, f (g x) = f x + d) : total f (xs.modifyLast g) = total f xs + d := by
  obtain ⟨past, x, rfl⟩ := (List.eq_nil_or_concat xs).resolve_left hne
  rw [List.concat_eq_append, List.modifyLast_concat, total_append, total_append, total_singleton,
    total_singleton, h, add_assoc]

end Totals

/-! ### Even distances -/

/-- Each key is `d` more than the one before. -/
def Spaced (d : ℕ) (ks : List ℕ) : Prop := ks.IsChain fun k k' => k' = k + d

/-- The `n` keys after `k`. -/
def following (d k n : ℕ) : List ℕ := (List.range n).map fun g => k + (g + 1) * d

theorem following_succ (d k n : ℕ) :
    following d k (n + 1) = following d k n ++ [k + (n + 1) * d] := by
  rw [following, List.range_succ, List.map_append]
  rfl

theorem following_getLast (d k n : ℕ) :
    ([k] ++ following d k n).getLast? = some (k + n * d) := by
  cases n with
  | zero => simp [following]
  | succ n => rw [following_succ, ← List.append_assoc, List.getLast?_concat]

/-- The keys that follow the last go on at the same distance. -/
theorem spaced_following {d k : ℕ} {ks : List ℕ} (h : Spaced d (ks ++ [k])) (n : ℕ) :
    Spaced d (ks ++ [k] ++ following d k n) := by
  induction n with
  | zero => simpa [following] using h
  | succ n ih =>
      have hlast : (ks ++ [k] ++ following d k n).getLast? = some (k + n * d) := by
        rw [List.append_assoc, List.getLast?_append, following_getLast]
        rfl
      rw [following_succ, ← List.append_assoc]
      refine List.IsChain.append ih (List.isChain_singleton _) ?_
      intro x hx y hy
      rw [hlast] at hx
      obtain rfl := Option.mem_some_iff.mp hx
      obtain rfl := Option.mem_some_iff.mp hy
      rw [Nat.add_mul, Nat.one_mul, Nat.add_assoc]

/-- At a positive distance, no key comes twice. -/
theorem Spaced.nodup {d : ℕ} {ks : List ℕ} (hd : 0 < d) (h : Spaced d ks) : ks.Nodup := by
  have hlt : ks.IsChain (· < ·) := List.IsChain.imp (fun k k' hk => by omega) h
  exact (List.isChain_iff_pairwise.mp hlt).imp fun hk => Nat.ne_of_lt hk

end WriteBehind
