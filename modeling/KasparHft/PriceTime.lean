import Mathlib.Algebra.Group.Nat.Defs
import Mathlib.Algebra.GroupWithZero.Nat
import Mathlib.Algebra.Order.BigOperators.Group.List
import Mathlib.Data.List.Sort
import Mathlib.Data.List.TakeWhile

/-!
# Queues in price-time priority

One side of a book is a list of makers, best price first and, at a price, first come first.  A
newcomer is filed behind everything that is as good as it (`file`).  A taker takes from the front
for as long as the prices suit it (`sweep`), so what it takes is a prefix of the queue and at most
the last maker of that prefix keeps a rest.

`Queued` is the order of such a list.  Prices are compared by `better`, which is `<` on one side
of a book and `>` on the other.
-/

namespace PriceTime

variable {ι π η : Type*}

/-- An order that waits: its owner may be hit for `qty` at `price`. -/
structure Maker (ι π η : Type*) where
  id : ι
  price : π
  qty : ℕ
  owner : η
deriving DecidableEq, Repr

/-- A maker, as it was, and how much of it was taken. -/
structure Hit (ι π η : Type*) where
  maker : Maker ι π η
  qty : ℕ
deriving DecidableEq, Repr

def Hit.whole (m : Maker ι π η) : Hit ι π η := ⟨m, m.qty⟩

/-- What is left of the maker. -/
def Hit.leaves (h : Hit ι π η) : ℕ := h.maker.qty - h.qty

/-- What a hit does not change of a maker. -/
def Maker.tag (m : Maker ι π η) : ι × π × η := (m.id, m.price, m.owner)

/-- The quantity of a list of makers. -/
def quantity (ms : List (Maker ι π η)) : ℕ := (ms.map Maker.qty).sum

/-- The quantity of a list of hits. -/
def taken (hits : List (Hit ι π η)) : ℕ := (hits.map Hit.qty).sum

@[simp] theorem quantity_nil : quantity ([] : List (Maker ι π η)) = 0 := rfl

@[simp] theorem quantity_cons (m : Maker ι π η) (ms : List (Maker ι π η)) :
    quantity (m :: ms) = m.qty + quantity ms := List.sum_cons

@[simp] theorem quantity_append (ms ns : List (Maker ι π η)) :
    quantity (ms ++ ns) = quantity ms + quantity ns := by
  unfold quantity
  rw [List.map_append, List.sum_append]

theorem map_id_eq_tag (ms : List (Maker ι π η)) :
    ms.map Maker.id = (ms.map Maker.tag).map fun t => t.1 := by
  rw [List.map_map]
  rfl

theorem map_price_eq_tag (ms : List (Maker ι π η)) :
    ms.map Maker.price = (ms.map Maker.tag).map fun t => t.2.1 := by
  rw [List.map_map]
  rfl

@[simp] theorem taken_nil : taken ([] : List (Hit ι π η)) = 0 := rfl

@[simp] theorem taken_cons (h : Hit ι π η) (hs : List (Hit ι π η)) :
    taken (h :: hs) = h.qty + taken hs := List.sum_cons

@[simp] theorem taken_append (hs ks : List (Hit ι π η)) :
    taken (hs ++ ks) = taken hs + taken ks := by
  unfold taken
  rw [List.map_append, List.sum_append]

@[simp] theorem taken_whole (ms : List (Maker ι π η)) :
    taken (ms.map Hit.whole) = quantity ms := by
  unfold taken quantity
  rw [List.map_map]
  rfl

/-! ### Sweeping -/

/-- Take `want` from the front of a queue while the prices suit: the hits, what is left of the
    queue and what is still wanted. -/
def sweep (suits : π → Bool) : List (Maker ι π η) → ℕ →
    List (Hit ι π η) × List (Maker ι π η) × ℕ
  | [], want => ([], [], want)
  | m :: ms, want =>
      if want = 0 ∨ suits m.price = false then ([], m :: ms, want)
      else if want < m.qty then ([⟨m, want⟩], { m with qty := m.qty - want } :: ms, 0)
      else
        let rest := sweep suits ms (want - m.qty)
        (Hit.whole m :: rest.1, rest.2)

section Sweep

variable {suits : π → Bool} {ms : List (Maker ι π η)} {m : Maker ι π η} {want : ℕ}

theorem sweep_none (ms : List (Maker ι π η)) : sweep suits ms 0 = ([], ms, 0) := by
  cases ms with
  | nil => rfl
  | cons m ms => rw [sweep, if_pos (Or.inl rfl)]

theorem sweep_stop (hm : suits m.price = false) :
    sweep suits (m :: ms) want = ([], m :: ms, want) := by
  rw [sweep, if_pos (Or.inr hm)]

theorem sweep_part (hm : suits m.price = true) (hwant : 0 < want) (hlt : want < m.qty) :
    sweep suits (m :: ms) want = ([⟨m, want⟩], { m with qty := m.qty - want } :: ms, 0) := by
  rw [sweep, if_neg (by simp [hm]; omega), if_pos hlt]

theorem sweep_whole (hm : suits m.price = true) (hwant : 0 < want) (hle : m.qty ≤ want) :
    sweep suits (m :: ms) want =
      (Hit.whole m :: (sweep suits ms (want - m.qty)).1, (sweep suits ms (want - m.qty)).2) := by
  rw [sweep, if_neg (by simp [hm]; omega), if_neg (by omega)]

/-- How a sweep ends: behind the makers that were taken whole it stops, or takes a part of one
    more. -/
inductive Swept (suits : π → Bool) (ms : List (Maker ι π η)) (want : ℕ) :
    List (Hit ι π η) × List (Maker ι π η) × ℕ → Prop
  | stopped (gone kept : List (Maker ι π η)) (left : ℕ) (hms : ms = gone ++ kept)
      (hsuit : ∀ m ∈ gone, suits m.price = true) (hqty : want = quantity gone + left)
      (hstop : left = 0 ∨ ∀ m ∈ kept.head?, suits m.price = false) :
      Swept suits ms want (gone.map Hit.whole, kept, left)
  | within (gone kept : List (Maker ι π η)) (m : Maker ι π η) (x : ℕ)
      (hms : ms = gone ++ m :: kept) (hsuit : ∀ m' ∈ gone ++ [m], suits m'.price = true)
      (hqty : want = quantity gone + x) (hpos : 0 < x) (hlt : x < m.qty) :
      Swept suits ms want
        (gone.map Hit.whole ++ [⟨m, x⟩], { m with qty := m.qty - x } :: kept, 0)

theorem Swept.cons {r : List (Hit ι π η) × List (Maker ι π η) × ℕ}
    (hm : suits m.price = true) (h : Swept suits ms want r) :
    Swept suits (m :: ms) (m.qty + want) (Hit.whole m :: r.1, r.2) := by
  cases h with
  | stopped gone kept left hms hsuit hqty hstop =>
      subst hms
      refine .stopped (m :: gone) kept left rfl ?_ ?_ hstop
      · exact List.forall_mem_cons.mpr ⟨hm, hsuit⟩
      · rw [quantity_cons, hqty, Nat.add_assoc]
  | within gone kept m' x hms hsuit hqty hpos hlt =>
      subst hms
      refine .within (m :: gone) kept m' x rfl ?_ ?_ hpos hlt
      · exact List.forall_mem_cons.mpr ⟨hm, hsuit⟩
      · rw [quantity_cons, hqty, Nat.add_assoc]

/-- **A sweep takes a prefix.** -/
theorem swept (suits : π → Bool) (ms : List (Maker ι π η)) (want : ℕ) :
    Swept suits ms want (sweep suits ms want) := by
  induction ms generalizing want with
  | nil => exact .stopped [] [] want rfl (by simp) (by simp) (Or.inr (by simp))
  | cons m ms ih =>
      rcases Nat.eq_zero_or_pos want with rfl | hwant
      · rw [sweep_none]
        exact .stopped [] (m :: ms) 0 rfl (by simp) (by simp) (Or.inl rfl)
      cases hm : suits m.price with
      | false =>
          rw [sweep_stop hm]
          refine .stopped [] (m :: ms) want rfl (by simp) (by simp) (Or.inr ?_)
          intro m' hm'
          cases hm'
          exact hm
      | true =>
          rcases Nat.lt_or_ge want m.qty with hlt | hle
          · rw [sweep_part hm hwant hlt]
            exact .within [] ms m want rfl (by simpa using hm) (by simp) hwant hlt
          · rw [sweep_whole hm hwant hle]
            have hrest := (ih (want - m.qty)).cons hm
            rwa [Nat.add_sub_cancel' hle] at hrest

/-! What the ends have in common. -/

section Ends

variable {hits : List (Hit ι π η)} {kept : List (Maker ι π η)} {left : ℕ}

/-- The queue that is left is a suffix of the one there was. -/
theorem Swept.tags (h : Swept suits ms want (hits, kept, left)) :
    kept.map Maker.tag <:+ ms.map Maker.tag := by
  cases h with
  | stopped gone kept left hms hsuit hqty hstop =>
      subst hms
      rw [List.map_append]
      exact List.suffix_append _ _
  | within gone kept m x hms hsuit hqty hpos hlt =>
      subst hms
      rw [List.map_append]
      exact List.suffix_append _ _

theorem Swept.taken_add (h : Swept suits ms want (hits, kept, left)) :
    taken hits + left = want := by
  cases h with
  | stopped gone kept left hms hsuit hqty hstop => rw [taken_whole, hqty]
  | within gone kept m x hms hsuit hqty hpos hlt => simp [hqty]

theorem Swept.positive (h : Swept suits ms want (hits, kept, left)) (hms : ∀ m ∈ ms, 0 < m.qty) :
    ∀ m ∈ kept, 0 < m.qty := by
  cases h with
  | stopped gone kept left hms' hsuit hqty hstop =>
      subst hms'
      exact fun m hm => hms m (List.mem_append_right _ hm)
  | within gone kept m x hms' hsuit hqty hpos hlt =>
      subst hms'
      refine List.forall_mem_cons.mpr ⟨Nat.sub_pos_of_lt hlt, fun m' hm' => ?_⟩
      exact hms m' (List.mem_append_right _ (List.mem_cons_of_mem _ hm'))

/-- A taker that is left with something is in front of a price that does not suit. -/
theorem Swept.stops (h : Swept suits ms want (hits, kept, left)) (hleft : left ≠ 0) :
    ∀ m ∈ kept.head?, suits m.price = false := by
  cases h with
  | stopped gone kept left hms hsuit hqty hstop => exact hstop.resolve_left hleft
  | within gone kept m x hms hsuit hqty hpos hlt => exact absurd rfl hleft

theorem Swept.hits_suit (h : Swept suits ms want (hits, kept, left))
    (hms : ∀ m ∈ ms, 0 < m.qty) : ∀ hit ∈ hits,
      hit.maker ∈ ms ∧ suits hit.maker.price = true ∧ 0 < hit.qty ∧ hit.qty ≤ hit.maker.qty := by
  cases h with
  | stopped gone kept left hms' hsuit hqty hstop =>
      subst hms'
      intro hit hhit
      obtain ⟨m, hm, rfl⟩ := List.mem_map.mp hhit
      exact ⟨List.mem_append_left _ hm, hsuit m hm, hms m (List.mem_append_left _ hm), le_rfl⟩
  | within gone kept m x hms' hsuit hqty hpos hlt =>
      subst hms'
      intro hit hhit
      rcases List.mem_append.mp hhit with hhit | hhit
      · obtain ⟨m', hm', rfl⟩ := List.mem_map.mp hhit
        exact ⟨List.mem_append_left _ hm', hsuit m' (List.mem_append_left _ hm'),
          hms m' (List.mem_append_left _ hm'), le_rfl⟩
      · obtain rfl := List.mem_singleton.mp hhit
        exact ⟨List.mem_append_right _ List.mem_cons_self,
          hsuit m (List.mem_append_right _ (List.mem_singleton_self m)), hpos, hlt.le⟩

end Ends

end Sweep

/-! ### The order of a queue -/

section Order

/-- A strict order that tells any two prices apart. -/
structure Priority (better : π → π → Prop) : Prop where
  irrefl : ∀ p, ¬ better p p
  trans : ∀ {p q r}, better p q → better q r → better p r
  total : ∀ p q, better p q ∨ p = q ∨ better q p

variable {better : π → π → Prop} {ms ns : List (Maker ι π η)} {m : Maker ι π η}

/-- Best price first. -/
def Queued (better : π → π → Prop) (ms : List (Maker ι π η)) : Prop :=
  ms.Pairwise fun a b => ¬ better b.price a.price

theorem Queued.sublist (h : Queued better ns) (hsub : ms.Sublist ns) : Queued better ms :=
  List.Pairwise.sublist hsub h

theorem Queued.head_best (h : Queued better ms) (hb : Priority better) (hm : m ∈ ms.head?) :
    ∀ m' ∈ ms, ¬ better m'.price m.price := by
  cases ms with
  | nil => cases hm
  | cons a ms =>
      cases hm
      intro m' hm'
      rcases List.mem_cons.mp hm' with rfl | hm'
      · exact hb.irrefl _
      · exact List.rel_of_pairwise_cons h hm'

variable [DecidableRel better]

/-- A newcomer goes behind everything that is as good as it. -/
def file (better : π → π → Prop) [DecidableRel better] (m : Maker ι π η)
    (ms : List (Maker ι π η)) : List (Maker ι π η) :=
  ms.orderedInsert (fun a b => better a.price b.price) m

/-- Where a newcomer is filed. -/
theorem exists_file (better : π → π → Prop) [DecidableRel better] (m : Maker ι π η)
    (ms : List (Maker ι π η)) :
    ∃ front back, ms = front ++ back ∧ file better m ms = front ++ m :: back ∧
      (∀ a ∈ front, ¬ better m.price a.price) ∧ ∀ b ∈ back.head?, better m.price b.price := by
  refine ⟨ms.takeWhile fun b => ¬ better m.price b.price,
    ms.dropWhile fun b => ¬ better m.price b.price, (List.takeWhile_append_dropWhile).symm,
    List.orderedInsert_eq_take_drop .., fun a ha => ?_, fun b hb => ?_⟩
  · simpa using List.mem_takeWhile_imp ha
  · have hhead := List.head?_dropWhile_not
      (p := fun b : Maker ι π η => decide ¬ better m.price b.price) ms
    rw [hb] at hhead
    simpa using hhead

theorem Queued.file (h : Queued better ms) (hb : Priority better) :
    Queued better (file better m ms) := by
  obtain ⟨front, back, rfl, hfile, hfront, hback⟩ := exists_file better m ms
  rw [hfile]
  have hlater : ∀ b ∈ back, better m.price b.price := by
    cases back with
    | nil => exact fun b hb' => absurd hb' List.not_mem_nil
    | cons b back =>
        intro b' hb'
        have hmb : better m.price b.price := hback b rfl
        have hsorted : Queued better (b :: back) := h.sublist (List.sublist_append_right _ _)
        have hbest := hsorted.head_best hb (m := b) rfl b' hb'
        rcases hb.total m.price b'.price with hlt | heq | hgt
        · exact hlt
        · exact absurd (heq ▸ hmb) hbest
        · exact absurd (hb.trans hgt hmb) hbest
  obtain ⟨hf, hk, hcross⟩ := List.pairwise_append.mp h
  refine List.pairwise_append.mpr ⟨hf, List.pairwise_cons.mpr ⟨?_, hk⟩, ?_⟩
  · exact fun b hb' hworse => hb.irrefl _ (hb.trans (hlater b hb') hworse)
  · intro a ha b hb'
    rcases List.mem_cons.mp hb' with rfl | hb'
    · exact hfront a ha
    · exact hcross a ha b hb'

theorem file_perm (better : π → π → Prop) [DecidableRel better] (m : Maker ι π η)
    (ms : List (Maker ι π η)) :
    (file better m ms).Perm (m :: ms) := List.perm_orderedInsert _ m ms

variable [DecidableEq π]

/-- The makers at a price, in the order they came. -/
def level (ms : List (Maker ι π η)) (p : π) : List (Maker ι π η) := ms.filter fun m => m.price = p

/-- **A newcomer is last at its price** and nothing else changes. -/
theorem level_file (h : Queued better ms) (hb : Priority better) (p : π) :
    level (file better m ms) p = if m.price = p then level ms p ++ [m] else level ms p := by
  obtain ⟨front, back, rfl, hfile, -, hback⟩ := exists_file better m ms
  unfold level
  rw [hfile, List.filter_append, List.filter_cons, List.filter_append]
  by_cases hp : m.price = p
  · subst hp
    have hnone : back.filter (fun b => b.price = m.price) = [] := by
      rw [List.filter_eq_nil_iff]
      intro b' hb'
      cases back with
      | nil => cases hb'
      | cons b back =>
          have hsorted : Queued better (b :: back) := h.sublist (List.sublist_append_right _ _)
          have hbest := hsorted.head_best hb (m := b) rfl b' hb'
          simp only [decide_eq_true_eq]
          intro heq
          exact hbest (heq ▸ hback b rfl)
    rw [if_pos rfl, if_pos (by simp), hnone, List.append_nil]
  · rw [if_neg hp, if_neg (by simpa using hp)]

end Order

end PriceTime
