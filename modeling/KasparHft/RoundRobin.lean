import KasparHft.MachineFamily
import Mathlib.Data.List.Nodup
import Mathlib.Order.Interval.Finset.Nat

/-!
# Queues split into lanes

One queue kept as several: each item is marked with the lane it went to, and a lane holds what is
marked with its number, in order.  A rotation visits lanes in a given order and takes the front of
each that is not empty.  Items marked in turn come back in turn from a rotation that starts at
the lane of the oldest, or from one that does not come round to any of their lanes twice.
-/

namespace RoundRobin

open Machine (part)

variable {α : Type*}

/-- The lanes hold these marked items, oldest first. -/
structure Holds (held : List (Nat × α)) (lanes : List (List α)) : Prop where
  lane : ∀ i, i < lanes.length → lanes[i]? = some (part i held)
  bound : ∀ e ∈ held, e.1 < lanes.length

/-- One rotation: the lanes it leaves and what it took. -/
def rotate : List Nat → List (List α) → List (List α) × List α
  | [], lanes => (lanes, [])
  | i :: order, lanes =>
      match lanes[i]? with
      | some (x :: dq) =>
          let r := rotate order (lanes.set i dq)
          (r.1, x :: r.2)
      | _ => rotate order lanes

section Lanes

variable {i : Nat} {x : α} {held rest : List (Nat × α)} {lanes : List (List α)}

theorem Holds.start (n : Nat) : Holds ([] : List (Nat × α)) (List.replicate n []) where
  lane := fun i hi => by
    rw [List.length_replicate] at hi
    exact List.getElem?_replicate_of_lt hi
  bound := fun e he => nomatch he

theorem Holds.push (h : Holds held lanes) (hi : i < lanes.length) (x : α) :
    Holds (held ++ [(i, x)]) (lanes.set i (part i held ++ [x])) := by
  constructor
  case lane =>
    intro j hj
    rw [List.length_set] at hj
    rw [Machine.part_append]
    rcases Decidable.em (i = j) with rfl | hne
    · rw [List.getElem?_set_self hi, Machine.part_cons_self, Machine.part_nil]
    · rw [List.getElem?_set_ne hne, h.lane j hj, Machine.part_cons_of_ne hne, Machine.part_nil,
        List.append_nil]
  case bound =>
    intro e he
    rw [List.length_set]
    rcases List.mem_append.mp he with he | he
    · exact h.bound e he
    · rw [List.mem_singleton.mp he]
      exact hi

theorem Holds.front (h : Holds ((i, x) :: held) lanes) :
    lanes[i]? = some (x :: part i held) := by
  rw [h.lane i (h.bound _ List.mem_cons_self), Machine.part_cons_self]

theorem Holds.take (h : Holds ((i, x) :: held) lanes) :
    Holds held (lanes.set i (part i held)) := by
  have hi : i < lanes.length := h.bound _ List.mem_cons_self
  constructor
  case lane =>
    intro j hj
    rw [List.length_set] at hj
    rcases Decidable.em (i = j) with rfl | hne
    · exact List.getElem?_set_self hi
    · rw [List.getElem?_set_ne hne, h.lane j hj, Machine.part_cons_of_ne hne]
  case bound =>
    intro e he
    rw [List.length_set]
    exact h.bound e (List.mem_cons_of_mem _ he)

theorem perm_of_front {dq : List α} (hfront : lanes[i]? = some (x :: dq)) :
    lanes.flatten.Perm (x :: (lanes.set i dq).flatten) := by
  induction lanes generalizing i with
  | nil => cases hfront
  | cons lane lanes ih =>
      cases i with
      | zero => cases hfront; exact List.Perm.refl _
      | succ i =>
          rw [List.getElem?_cons_succ] at hfront
          rw [List.set_cons_succ, List.flatten_cons, List.flatten_cons]
          exact ((ih hfront).append_left lane).trans List.perm_middle

/-- The lanes hold each item once, and nothing else. -/
theorem Holds.perm (h : Holds held lanes) : (held.map Prod.snd).Perm lanes.flatten := by
  induction held generalizing lanes with
  | nil =>
      have hempty : ∀ dq ∈ lanes, dq = [] := by
        intro dq hdq
        obtain ⟨j, hj, rfl⟩ := List.mem_iff_getElem.mp hdq
        have hlane := h.lane j hj
        rw [List.getElem?_eq_getElem hj] at hlane
        exact Option.some.inj hlane
      rw [List.flatten_eq_nil_iff.mpr hempty]
      exact List.Perm.refl _
  | cons e held ih => exact ((ih h.take).cons e.2).trans (perm_of_front h.front).symm

theorem part_eq_nil (hnot : i ∉ held.map Prod.fst) : part i held = [] := by
  refine List.filterMap_eq_nil_iff.mpr fun e he => if_neg fun heq => hnot ?_
  exact List.mem_map.mpr ⟨e, he, heq⟩

/-- A lane that nothing is marked with gives nothing. -/
theorem rotate_cons_of_notMem (h : Holds held lanes) (hnot : i ∉ held.map Prod.fst)
    (order : List Nat) : rotate (i :: order) lanes = rotate order lanes := by
  rcases Nat.lt_or_ge i lanes.length with hi | hge
  · simp only [rotate, h.lane i hi, part_eq_nil hnot]
  · simp only [rotate, List.getElem?_eq_none hge]

theorem rotate_cons_of_front {dq : List α} (hfront : lanes[i]? = some (x :: dq))
    (order : List Nat) : rotate (i :: order) lanes =
      ((rotate order (lanes.set i dq)).1, x :: (rotate order (lanes.set i dq)).2) := by
  simp only [rotate, hfront]

/-- The first lane of a rotation gives its front, or has none. -/
theorem rotate_cons_cases (i : Nat) (order : List Nat) (lanes : List (List α)) :
    (∃ x dq, lanes[i]? = some (x :: dq) ∧ rotate (i :: order) lanes =
      ((rotate order (lanes.set i dq)).1, x :: (rotate order (lanes.set i dq)).2)) ∨
    ((∀ x dq, lanes[i]? ≠ some (x :: dq)) ∧ rotate (i :: order) lanes = rotate order lanes) := by
  rcases hlane : lanes[i]? with _ | _ | ⟨x, dq⟩
  · exact .inr ⟨fun x dq => nofun, by simp only [rotate, hlane]⟩
  · exact .inr ⟨fun x dq => nofun, by simp only [rotate, hlane]⟩
  · exact .inl ⟨x, dq, rfl, rotate_cons_of_front hlane order⟩

/-- A rotation neither loses an item nor takes one twice. -/
theorem rotate_perm (order : List Nat) (lanes : List (List α)) :
    lanes.flatten.Perm ((rotate order lanes).2 ++ (rotate order lanes).1.flatten) := by
  induction order generalizing lanes with
  | nil => exact List.Perm.refl _
  | cons i order ih =>
      rcases rotate_cons_cases i order lanes with ⟨x, dq, hlane, hrotate⟩ | ⟨-, hrotate⟩
      · rw [hrotate]
        exact (perm_of_front hlane).trans ((ih _).cons x)
      · rw [hrotate]
        exact ih lanes

theorem rotate_length (order : List Nat) (lanes : List (List α)) :
    (rotate order lanes).1.length = lanes.length := by
  induction order generalizing lanes with
  | nil => rfl
  | cons i order ih =>
      rcases rotate_cons_cases i order lanes with ⟨x, dq, -, hrotate⟩ | ⟨-, hrotate⟩
      · rw [hrotate]
        exact (ih _).trans List.length_set
      · rw [hrotate]
        exact ih lanes

/-- A rotation that finds an item takes one. -/
theorem rotate_progresses {order : List Nat} (hi : i ∈ order) {dq : List α}
    (hlane : lanes[i]? = some (x :: dq)) : (rotate order lanes).2 ≠ [] := by
  induction order with
  | nil => cases hi
  | cons j order ih =>
      rcases rotate_cons_cases j order lanes with ⟨y, dq', -, hrotate⟩ | ⟨hnone, hrotate⟩
      · rw [hrotate]
        exact List.cons_ne_nil _ _
      · rw [hrotate]
        rcases List.mem_cons.mp hi with rfl | hin
        · exact absurd hlane (hnone x dq)
        · exact ih hin

/-- **One rotation** takes the first items held, when their lanes are met in the order of the
    rotation and no item behind them is in a lane it visits that they do not use. -/
theorem rotate_takes (order : List Nat) (taken rest : List (Nat × α)) {lanes : List (List α)}
    (h : Holds (taken ++ rest) lanes) (hnodup : order.Nodup)
    (horder : (taken.map Prod.fst).Sublist order)
    (hrest : ∀ e ∈ rest, e.1 ∈ order → e.1 ∈ taken.map Prod.fst) :
    (rotate order lanes).2 = taken.map Prod.snd ∧ Holds rest (rotate order lanes).1 := by
  induction order generalizing taken lanes with
  | nil =>
      rw [List.map_eq_nil_iff.mp (List.sublist_nil.mp horder)] at h ⊢
      exact ⟨rfl, h⟩
  | cons i order ih =>
      obtain ⟨hfresh, hnodup'⟩ := List.nodup_cons.mp hnodup
      rcases List.sublist_cons_iff.mp horder with hskip | ⟨marks, hmarks, htake⟩
      · -- the lane is not that of any item held
        have hfree : i ∉ taken.map Prod.fst := fun hmem => hfresh (hskip.subset hmem)
        have hnot : i ∉ (taken ++ rest).map Prod.fst := by
          rw [List.map_append, List.mem_append]
          rintro (hmem | hmem)
          · exact hfree hmem
          · obtain ⟨e, he, rfl⟩ := List.mem_map.mp hmem
            exact hfree (hrest e he List.mem_cons_self)
        rw [rotate_cons_of_notMem h hnot]
        exact ih taken h hnodup' hskip fun e he hmem => hrest e he (List.mem_cons_of_mem _ hmem)
      · obtain ⟨⟨j, x⟩, taken', rfl, hj, rfl⟩ := List.map_eq_cons_iff.mp hmarks
        cases hj
        have hrest' : ∀ e ∈ rest, e.1 ∈ order → e.1 ∈ taken'.map Prod.fst := by
          intro e he hmem
          rcases List.mem_cons.mp (hrest e he (List.mem_cons_of_mem _ hmem)) with heq | hin
          · exact absurd (heq ▸ hmem) hfresh
          · exact hin
        have hcons : Holds ((j, x) :: (taken' ++ rest)) lanes := h
        obtain ⟨htaken, hholds⟩ := ih taken' hcons.take hnodup' htake hrest'
        rw [rotate_cons_of_front hcons.front]
        exact ⟨congrArg (x :: ·) htaken, hholds⟩

end Lanes

/-! ### Items marked in turn -/

/-- Mark items with consecutive lanes, from `a` on. -/
def mark (n : Nat) : Nat → List α → List (Nat × α)
  | _, [] => []
  | a, x :: items => (a % n, x) :: mark n (a + 1) items

/-- The lanes in the order a rotation from `base` visits them. -/
def rotation (n base : Nat) : List Nat := (List.range n).map fun j => (base + j) % n

section Marks

variable {n : Nat}

@[simp] theorem mark_snd (a : Nat) (items : List α) : (mark n a items).map Prod.snd = items := by
  induction items generalizing a with
  | nil => rfl
  | cons x items ih => rw [mark, List.map_cons, ih]

theorem mark_fst (a : Nat) (items : List α) :
    (mark n a items).map Prod.fst = (List.range items.length).map fun j => (a + j) % n := by
  induction items generalizing a with
  | nil => rfl
  | cons x items ih =>
      rw [mark, List.map_cons, ih, List.length_cons, List.range_succ_eq_map, List.map_cons,
        List.map_map]
      refine List.cons_eq_cons.mpr ⟨rfl, List.map_congr_left fun j _ => ?_⟩
      exact congrArg (· % n) (Nat.add_assoc a 1 j ▸ congrArg (a + ·) (Nat.add_comm 1 j))

theorem mark_append (a : Nat) (items more : List α) :
    mark n a (items ++ more) = mark n a items ++ mark n (a + items.length) more := by
  induction items generalizing a with
  | nil => rfl
  | cons x items ih =>
      have hnext : a + 1 + items.length = a + (x :: items).length := by
        rw [List.length_cons]; omega
      rw [List.cons_append, mark, ih, hnext]
      rfl

theorem mark_drop (a k : Nat) (items : List α) :
    (mark n a items).drop k = mark n (a + k) (items.drop k) := by
  induction items generalizing a k with
  | nil => cases k <;> rfl
  | cons x items ih =>
      cases k with
      | zero => rfl
      | succ k => exact (ih (a + 1) k).trans (congrArg (mark n · _) (by omega))

/-- Marks depend on the first lane only. -/
theorem mark_congr {a b : Nat} (hmod : a % n = b % n) (items : List α) :
    mark n a items = mark n b items := by
  induction items generalizing a b with
  | nil => rfl
  | cons x items ih =>
      have hnext : (a + 1) % n = (b + 1) % n := by rw [Nat.add_mod, hmod, ← Nat.add_mod]
      rw [mark, mark, hmod, ih hnext]

theorem rotation_nodup (n base : Nat) : (rotation n base).Nodup := by
  refine List.Nodup.map_on (fun i hi j hj hmod => ?_) List.nodup_range
  have hwindow : ∀ m ∈ List.range n, base + m ∈ Finset.Ico base (base + n) :=
    fun m hm => Finset.mem_Ico.mpr (by have := List.mem_range.mp hm; omega)
  have hpos : base + i = base + j := Nat.mod_injOn_Ico base n
    (Finset.mem_coe.mpr (hwindow i hi)) (Finset.mem_coe.mpr (hwindow j hj)) hmod
  exact Nat.add_left_cancel hpos

theorem mem_rotation {i : Nat} (base : Nat) (hi : i < n) : i ∈ rotation n base := by
  refine List.mem_map.mpr
    ⟨(i + (n - base % n)) % n, List.mem_range.mpr (Nat.mod_lt _ (by omega)), ?_⟩
  have hturn : base + (i + (n - base % n)) = i + n * (base / n + 1) := by
    have hdiv := Nat.div_add_mod base n
    have hlt := Nat.mod_lt base (Nat.zero_lt_of_lt hi)
    rw [Nat.mul_add, Nat.mul_one]
    omega
  rw [Nat.add_mod_mod, hturn, Nat.add_mul_mod_self_left, Nat.mod_eq_of_lt hi]

/-- The lanes of items that start `off` lanes past `base` and stay within one turn. -/
theorem mark_sublist_rotation {base off : Nat} (items : List α) (hfits : off + items.length ≤ n) :
    ((mark n (base + off) items).map Prod.fst).Sublist ((rotation n base).drop off) := by
  obtain ⟨left, rfl⟩ := Nat.exists_eq_add_of_le hfits
  have hsplit : (rotation (off + items.length + left) base).drop off =
      (List.range (items.length + left)).map fun j =>
        (base + off + j) % (off + items.length + left) := by
    unfold rotation
    rw [Nat.add_assoc off, List.range_add, List.map_append, List.drop_left' (by simp), List.map_map]
    exact List.map_congr_left fun j _ => congrArg (· % _) (Nat.add_assoc base off j).symm
  rw [hsplit, mark_fst]
  exact (List.range_sublist.mpr (Nat.le_add_right _ _)).map _

/-- A rotation that starts at the lane of the oldest item takes a whole turn of them. -/
theorem rotate_turn {base : Nat} {items : List α} {lanes : List (List α)}
    (h : Holds (mark n base items) lanes) :
    (rotate (rotation n base) lanes).2 = items.take n ∧
      Holds (mark n base (items.drop n)) (rotate (rotation n base) lanes).1 := by
  have hsplit : mark n base items = mark n base (items.take n) ++ mark n base (items.drop n) := by
    rcases Nat.le_total n items.length with hle | hge
    · have hnext : mark n (base + (items.take n).length) (items.drop n) =
          mark n base (items.drop n) := by
        rw [List.length_take, Nat.min_eq_left hle]
        exact mark_congr (Nat.add_mod_right base n) _
      rw [← hnext, ← mark_append, List.take_append_drop]
    · rw [List.take_of_length_le hge, List.drop_of_length_le hge, mark, List.append_nil]
  have htake : (items.take n).length ≤ n := by
    rw [List.length_take]
    exact Nat.min_le_left n _
  have horder : ((mark n base (items.take n)).map Prod.fst).Sublist (rotation n base) :=
    mark_sublist_rotation _ ((Nat.zero_add _).trans_le htake)
  rw [hsplit] at h
  obtain ⟨htaken, hholds⟩ := rotate_takes (rotation n base) _ _ h (rotation_nodup n base) horder (by
    intro e he hmem
    rcases Nat.le_total n items.length with hle | hge
    · -- a whole turn uses every lane
      rw [mark_fst, List.length_take, Nat.min_eq_left hle]
      exact hmem
    · rw [List.drop_of_length_le hge] at he
      cases he)
  rw [mark_snd] at htaken
  exact ⟨htaken, hholds⟩

/-- A rotation takes all items when their lanes end before it is over. -/
theorem rotate_all {base off : Nat} {items : List α} {lanes : List (List α)}
    (h : Holds (mark n (base + off) items) lanes) (hfits : off + items.length ≤ n) :
    (rotate (rotation n base) lanes).2 = items ∧
      Holds ([] : List (Nat × α)) (rotate (rotation n base) lanes).1 := by
  rw [← List.append_nil (mark n (base + off) items)] at h
  obtain ⟨htaken, hholds⟩ := rotate_takes (rotation n base) _ [] h (rotation_nodup n base)
    ((mark_sublist_rotation items hfits).trans (List.drop_sublist off _)) (fun e he => nomatch he)
  rw [mark_snd] at htaken
  exact ⟨htaken, hholds⟩

/-- A rotation comes to none of these lanes before `off`. -/
theorem notMem_mark_of_lt (base : Nat) {off j : Nat} {items : List α}
    (hfits : off + items.length ≤ n) (hj : j < off) :
    (base + j) % n ∉ (mark n (base + off) items).map Prod.fst := by
  intro hmem
  have hafter := (mark_sublist_rotation items hfits).subset hmem
  have hbefore : (base + j) % n ∈ (rotation n base).take off := by
    unfold rotation
    rw [← List.map_take, List.take_range, Nat.min_eq_left (by omega)]
    exact List.mem_map.mpr ⟨j, List.mem_range.mpr hj, rfl⟩
  exact List.disjoint_take_drop (rotation_nodup n base) (Nat.le_refl off) hbefore hafter

end Marks

end RoundRobin
