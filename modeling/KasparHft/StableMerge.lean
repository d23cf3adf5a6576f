import Mathlib.Data.List.Sort
import Mathlib.Order.Lattice

/-!
# Stable merges with unkeyed items

Two lists are merged by a key, ties going to the first.  Some items may have no key of their own
and carry the least value instead, wherever they stand: the lists are then not sorted, and the
merge is not a sorted list.  It still takes the items with a key as if the others were not there.
-/

namespace StableMerge

/-- The list an item comes from. -/
inductive Origin where
  | first
  | second
deriving DecidableEq, Repr

variable {α κ : Type*}

def tag (o : Origin) (xs : List α) : List (Origin × α) := xs.map fun x => (o, x)

/-- The items from one of the lists, in their order. -/
def part (o : Origin) (ms : List (Origin × α)) : List α :=
  (ms.filter fun m => m.1 = o).map Prod.snd

section Merge

variable [LinearOrder κ] (key : α → κ)

/-- The merge, each item with where it comes from. -/
def merge (xs ys : List α) : List (Origin × α) :=
  List.merge (tag .first xs) (tag .second ys) fun a b => key a.2 ≤ key b.2

/-- Keys in order, ties from the first list in front of those from the second. -/
def InOrder (a b : Origin × α) : Prop :=
  key a.2 < key b.2 ∨ key a.2 = key b.2 ∧ (a.1 = .second → b.1 = .second)

instance (a b : Origin × α) : Decidable (InOrder key a b) := inferInstanceAs (Decidable (_ ∨ _))

end Merge

/-! ### Filtering a merge -/

section Filter

variable {le : α → α → Bool} {p : α → Bool}

/-- Of items that all stand for `p` and items that none do a filter leaves the former. -/
theorem filter_merge_left {xs ys : List α} (hxs : ∀ x ∈ xs, p x = true)
    (hys : ∀ y ∈ ys, p y = false) : (List.merge xs ys le).filter p = xs := by
  induction xs generalizing ys with
  | nil => simpa using hys
  | cons x xs ih =>
      obtain ⟨hx, hrest⟩ := List.forall_mem_cons.mp hxs
      induction ys with
      | nil => simpa using hxs
      | cons y ys ihy =>
          obtain ⟨hy, hyrest⟩ := List.forall_mem_cons.mp hys
          rw [List.cons_merge_cons]
          split
          · rw [List.filter_cons_of_pos hx, ih hrest hys]
          · rw [List.filter_cons_of_neg (by simp [hy]), ihy hyrest]

theorem filter_merge_right {xs ys : List α} (hxs : ∀ x ∈ xs, p x = false)
    (hys : ∀ y ∈ ys, p y = true) : (List.merge xs ys le).filter p = ys := by
  induction xs generalizing ys with
  | nil => simpa using hys
  | cons x xs ih =>
      obtain ⟨hx, hrest⟩ := List.forall_mem_cons.mp hxs
      induction ys with
      | nil => simpa using hxs
      | cons y ys ihy =>
          obtain ⟨hy, hyrest⟩ := List.forall_mem_cons.mp hys
          rw [List.cons_merge_cons]
          split
          · rw [List.filter_cons_of_neg (by simp [hx]), ih hrest hys]
          · rw [List.filter_cons_of_pos hy, ihy hyrest]

/-- **Items outside `p` that come before everything** do not change how the others are merged. -/
theorem filter_merge (hleast : ∀ x y, p x = false → le x y = true)
    (hmost : ∀ x y, p x = true → p y = false → le x y = false) (xs ys : List α) :
    (List.merge xs ys le).filter p = List.merge (xs.filter p) (ys.filter p) le := by
  induction xs generalizing ys with
  | nil => simp
  | cons x xs ih =>
      induction ys with
      | nil => simp
      | cons y ys ihy =>
          rw [List.cons_merge_cons]
          cases hx : p x with
          | false =>
              rw [if_pos (hleast x y hx), List.filter_cons_of_neg (by simp [hx]),
                List.filter_cons_of_neg (by simp [hx]), ih]
          | true =>
              cases hy : p y with
              | false =>
                  rw [if_neg (by simp [hmost x y hx hy]), List.filter_cons_of_neg (by simp [hy]),
                    ihy, List.filter_cons_of_neg (a := y) (by simp [hy])]
              | true =>
                  rw [List.filter_cons_of_pos hx, List.filter_cons_of_pos hy,
                    List.cons_merge_cons]
                  split
                  · rw [List.filter_cons_of_pos hx, ih, List.filter_cons_of_pos hy]
                  · rw [List.filter_cons_of_pos hy, ihy, List.filter_cons_of_pos hx]

end Filter

/-! ### The merge -/

section Rules

variable [LinearOrder κ] {key : α → κ} {p : α → Bool} {xs ys : List α}

theorem map_snd_tag (o : Origin) (xs : List α) : (tag o xs).map Prod.snd = xs := by
  simp [tag]

/-- Without the origins it is a merge of the lists. -/
theorem map_snd_merge :
    (merge key xs ys).map Prod.snd = List.merge xs ys fun a b => key a ≤ key b := by
  rw [merge, List.map_merge (s := fun a b => key a ≤ key b) fun _ _ _ _ => rfl, map_snd_tag,
    map_snd_tag]

/-- **Each list is found in the merge**, whole and in its order. -/
theorem part_merge : part .first (merge key xs ys) = xs ∧ part .second (merge key xs ys) = ys := by
  have hfirst : ∀ m ∈ tag .first xs, m.1 = .first := by simp [tag]
  have hsecond : ∀ m ∈ tag .second ys, m.1 = .second := by simp [tag]
  unfold part merge
  constructor
  · rw [filter_merge_left (fun m hm => by simp [hfirst m hm]) (fun m hm => by simp [hsecond m hm]),
      map_snd_tag]
  · rw [filter_merge_right (fun m hm => by simp [hfirst m hm]) (fun m hm => by simp [hsecond m hm]),
      map_snd_tag]

theorem filter_tag (o : Origin) (xs : List α) :
    (tag o xs).filter (fun m => p m.2) = tag o (xs.filter p) := by
  rw [tag, List.filter_map, tag]
  rfl

/-- Tagged items in the order of their keys are in order. -/
theorem pairwise_tag (o : Origin) (h : xs.Pairwise fun a b => key a ≤ key b) :
    (tag o xs).Pairwise (InOrder key) :=
  List.pairwise_map.mpr (h.imp fun hab => hab.lt_or_eq.imp id fun heq => ⟨heq, id⟩)

theorem inOrder_trans {a b c : Origin × α} (hab : InOrder key a b) (hbc : InOrder key b c) :
    InOrder key a c := by
  rcases hab with hab | ⟨hab, hoab⟩
  · exact .inl (hab.trans_le (hbc.elim le_of_lt fun h => h.1.le))
  · rcases hbc with hbc | ⟨hbc, hobc⟩
    · exact .inl (hab ▸ hbc)
    · exact .inr ⟨hab.trans hbc, hobc ∘ hoab⟩

theorem inOrder_total (key : α → κ) (a b : Origin × α) : InOrder key a b ∨ InOrder key b a := by
  rcases lt_trichotomy (key a.2) (key b.2) with h | h | h
  · exact .inl (.inl h)
  · cases ha : a.1 with
    | first => exact .inl (.inr ⟨h, by simp [ha]⟩)
    | second => exact .inr (.inr ⟨h.symm, fun _ => ha⟩)
  · exact .inr (.inl h)

/-- Comparing an item of the first list with one of the second is comparing their keys. -/
theorem merge_tag : List.merge (tag .first xs) (tag .second ys) (fun a b => key a.2 ≤ key b.2) =
    List.merge (tag .first xs) (tag .second ys) fun a b => InOrder key a b := by
  have hsame : ∀ a ∈ tag .first xs, ∀ b ∈ tag .second ys,
      decide (InOrder key a b) = decide (key a.2 ≤ key b.2) := by
    intro a ha b _
    obtain ⟨x, -, rfl⟩ := List.mem_map.mp ha
    simp [InOrder, le_iff_lt_or_eq]
  have hmap : (List.merge (tag .first xs) (tag .second ys) fun a b => key a.2 ≤ key b.2).map id =
      List.merge ((tag .first xs).map id) ((tag .second ys).map id) fun a b => InOrder key a b :=
    List.map_merge fun a ha b hb => (hsame a ha b hb).symm
  simpa using hmap

/-- **The items with a key are in order**, ties from the first list in front, where each list has
    its own in order; the items without one may stand anywhere. -/
theorem pairwise_merge (hleast : ∀ x y, p x = false → key x ≤ key y)
    (hmost : ∀ x y, p x = true → p y = false → key y < key x)
    (hxs : (xs.filter p).Pairwise fun a b => key a ≤ key b)
    (hys : (ys.filter p).Pairwise fun a b => key a ≤ key b) :
    ((merge key xs ys).filter fun m => p m.2).Pairwise (InOrder key) := by
  unfold merge
  rw [filter_merge (fun a b ha => decide_eq_true (hleast a.2 b.2 ha))
    (fun a b ha hb => decide_eq_false (not_le.mpr (hmost a.2 b.2 ha hb))), filter_tag, filter_tag]
  have hsorted : (List.merge (tag .first (xs.filter p)) (tag .second (ys.filter p))
      fun a b => decide (InOrder key a b)).Pairwise fun a b => decide (InOrder key a b) := by
    apply List.pairwise_merge
    · intro a b c hab hbc
      exact decide_eq_true (inOrder_trans (of_decide_eq_true hab) (of_decide_eq_true hbc))
    · intro a b
      simpa using inOrder_total key a b
    · exact (pairwise_tag .first hxs).imp decide_eq_true
    · exact (pairwise_tag .second hys).imp decide_eq_true
  rw [merge_tag]
  exact hsorted.imp of_decide_eq_true

end Rules

end StableMerge
