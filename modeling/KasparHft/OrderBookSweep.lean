import KasparHft.OrderBookResting
import Mathlib

/-!
# The sweep of the contra side

An `add` of a real order sweeps the levels of the other side that it crosses: our orders
there are filled, and in live the exchange's are cancelled.  This module says which levels
the loops of `fill_stray_sim_orders` visit and what they leave, and draws the conclusion for
live: the book is never locked or crossed, and an add takes away the orders it crosses and
no others.

No call makes an order out of nothing: what rests in a queue after a call was there before,
with its id and side, or is the order the call adds.
-/

namespace KasparHft.OB

open Ladder Machine

/-! ### Where orders come from -/

/-- The orders of `q'` are orders of `q`, with other sizes perhaps. -/
def Descends (q q' : List Order) : Prop :=
  ∀ o ∈ q', ∃ o₀ ∈ q, o₀.id = o.id ∧ o₀.side = o.side

theorem Descends.of_subset {q q' : List Order} (h : ∀ o ∈ q', o ∈ q) : Descends q q' :=
  fun o ho => ⟨o, h o ho, rfl, rfl⟩

/-- They stand in the order of `q`. -/
def Thins (q q' : List Order) : Prop :=
  (q'.map fun o => (o.id, o.side)).Sublist (q.map fun o => (o.id, o.side))

theorem Thins.refl (q : List Order) : Thins q q := List.Sublist.refl _

theorem Thins.nil (q : List Order) : Thins q [] := List.nil_sublist _

theorem Thins.trans {q q' q'' : List Order} (h : Thins q q') (h' : Thins q' q'') :
    Thins q q'' :=
  List.Sublist.trans h' h

theorem Thins.append {q₁ q₁' q₂ q₂' : List Order} (h₁ : Thins q₁ q₁') (h₂ : Thins q₂ q₂') :
    Thins (q₁ ++ q₂) (q₁' ++ q₂') := by
  unfold Thins
  rw [List.map_append, List.map_append]
  exact List.Sublist.append h₁ h₂

theorem Thins.reverse {q q' : List Order} (h : Thins q q') : Thins q.reverse q'.reverse := by
  unfold Thins
  rw [List.map_reverse, List.map_reverse]
  exact List.Sublist.reverse h

theorem Thins.descends {q q' : List Order} (h : Thins q q') : Descends q q' := by
  intro o ho
  obtain ⟨o₀, ho₀, heq⟩ := List.mem_map.mp (List.Sublist.subset h (List.mem_map_of_mem ho))
  exact ⟨o₀, ho₀, congrArg Prod.fst heq, congrArg Prod.snd heq⟩

theorem Thins.update (qs : ℤ → List Order) {p : ℤ} {q : List Order} (h : Thins (qs p) q) (r : ℤ) :
    Thins (qs r) (Function.update qs p q r) := by
  by_cases hr : r = p
  · rw [hr, Function.update_self]
    exact h
  · rw [Function.update_of_ne hr]
    exact .refl _

theorem fill_thins {px : ℤ} {tim : ℕ} {l l' : List Order} {sz : ℤ} {n : List Note}
    (h : fill px tim l sz = some (l', n)) : Thins l l' := by
  induction l generalizing sz l' n with
  | nil =>
      cases h
      exact .refl _
  | cons s prev ih =>
      cases (fill_cases h).2 with
      | goesOn _ _ _ hrest => exact List.Sublist.cons _ (ih hrest)
      | ends _ _ _ => exact List.sublist_cons_self _ _
      | inPart _ hfill =>
          obtain ⟨-, -, -, -, -, rfl, -⟩ := fillNotify_eq_some.mp hfill
          exact List.Sublist.refl _

theorem sweepQ_thins {cfg : Cfg} {contra : Side} {px : ℤ} {tim : ℕ} {q q' : List Order}
    {n : List Note} {c : ℕ} (h : sweepQ cfg contra px tim q = some (q', n, c)) : Thins q q' := by
  induction q generalizing q' n c with
  | nil =>
      cases h
      exact .refl _
  | cons o os ih =>
      cases sweepQ_cases h with
      | fills _ _ hfill hrest => exact (fill_thins hfill).append (ih hrest)
      | cancels _ _ hrest => exact (Thins.nil [o]).append (ih hrest)
      | stays _ _ hrest => exact (Thins.refl [o]).append (ih hrest)

theorem doExec_thins {q q' : List Order} {a : ModArgs} {n : List Note}
    (h : doExec q a = some (q', n)) : Thins q q' := by
  obtain ⟨rfl, -⟩ | ⟨l, hfill, rfl⟩ := doExec_cases h
  · exact .refl _
  · have hahead := (fill_thins hfill).reverse
    rw [List.reverse_reverse] at hahead
    have happ := hahead.append (.refl (q.dropWhile Order.isSim))
    rwa [List.takeWhile_append_dropWhile] at happ

theorem doCanc_descends {q q' : List Order} {o : Order} {a : ModArgs} {n : List Note}
    (ho : o ∈ q) (h : doCanc q o a = some (q', n)) : Descends q q' := by
  obtain ⟨left, -, ⟨-, -, rfl⟩ | ⟨-, -, rfl⟩⟩ := doCanc_cases h
  · exact Descends.of_subset fun x hx => (List.mem_filter.mp hx).1
  · intro x hx
    obtain ⟨y, hy, rfl⟩ := List.mem_map.mp hx
    split
    · exact ⟨o, ho, rfl, rfl⟩
    · exact ⟨y, hy, rfl, rfl⟩

theorem modQ_descends {q q' : List Order} {o : Order} {a : ModArgs} {n : List Note}
    (ho : o ∈ q) (h : modQ q o a = some (q', n)) : Descends q q' := by
  obtain ⟨-, -, hexec⟩ | ⟨-, hcanc⟩ | ⟨rfl, -⟩ := modQ_cases h
  · exact (doExec_thins hexec).descends
  · exact doCanc_descends ho hcanc
  · exact Descends.of_subset fun _ hx => hx

theorem qs_setQ (b : Book) (side : Side) (px : ℤ) (q : List Order) (side' : Side) (p : ℤ) :
    (b.setQ side px q).qs side' p = if side' = side ∧ p = px then q else b.qs side' p := by
  cases side <;> cases side' <;>
    simp [Book.setQ, Book.setQs, Book.qs, Function.update_apply]

theorem sweep_thins {cfg : Cfg} {contra : Side} {d : ℤ} {stop : ℤ → Bool} {tim k : ℕ} {p : ℤ}
    {qs qs' : ℤ → List Order} {n : List Note} {c : ℕ}
    (h : sweep cfg contra d stop tim k p qs = some (qs', n, c)) (r : ℤ) :
    Thins (qs r) (qs' r) := by
  induction k generalizing p qs n c with
  | zero =>
      cases h
      exact .refl _
  | succ k ih =>
      obtain ⟨q, nq, cq, hq, hgo⟩ := sweep_cases h
      have hone := Thins.update qs (sweepQ_thins hq) r
      obtain ⟨-, rfl, -⟩ | ⟨nr, cr, -, -, -, hrest⟩ := hgo
      · exact hone
      · exact hone.trans (ih hrest)

theorem qs_setQs (b : Book) (side : Side) (qs : ℤ → List Order) (side' : Side) :
    (b.setQs side qs).qs side' = if side' = side then qs else b.qs side' := by
  cases side <;> cases side' <;> rfl

theorem fillStraySimOrders_thins {cfg : Cfg} {b b' : Book} {side : Side} {px : ℤ} {txtim : ℕ}
    {n : List Note} {c : ℕ} (h : b.fillStraySimOrders cfg side px txtim = some (b', n, c))
    (side' : Side) (p : ℤ) : Thins (b.qs side' p) (b'.qs side' p) := by
  obtain ⟨qs, rfl, hswept⟩ := fillStraySimOrders_some h
  have hthins : ∀ p, Thins (b.qs side.other p) (qs p) := by
    intro p
    obtain ⟨rfl, -⟩ | ⟨d, stop, k, p', hsweep⟩ := hswept
    · exact .refl _
    · exact sweep_thins hsweep p
  change Thins (b.qs side' p) ((b.setQs side.other qs).qs side' p)
  rw [qs_setQs]
  split
  next hside =>
    rw [hside]
    exact hthins p
  next => exact .refl _

/-- The last step of `add`. -/
theorem mem_setQ_append {b : Book} {side side' : Side} {px p : ℤ} {o x : Order}
    (ho : o ∈ (b.setQ side' px (b.qs side' px ++ [x])).qs side p) :
    o ∈ b.qs side p ∨ (side' = side ∧ px = p ∧ o = x) := by
  rw [qs_setQ] at ho
  split at ho
  next hat =>
    obtain ⟨rfl, rfl⟩ := hat
    rcases List.mem_append.mp ho with ho | ho
    · exact .inl ho
    · exact .inr ⟨rfl, rfl, List.mem_singleton.mp ho⟩
  · exact .inl ho

/-- An order that rests after an `add` rested before, or is the one added. -/
theorem add_mem {cfg : Cfg} {currtim : ℕ} {b b' : Book} {a : AddArgs} {n : List Note}
    (h : b.add cfg currtim a = some (b', n)) {side : Side} {p : ℤ} {o : Order}
    (ho : o ∈ b'.qs side p) :
    (∃ o₀ ∈ b.qs side p, o₀.id = o.id ∧ o₀.side = o.side) ∨
      (a.side = side ∧ a.px = p ∧ o = a.order ∧
        (isSim a.id = true → b.arrivalPx a.side a.px = none)) := by
  cases add_cases h with
  | offLadder _ => exact .inl ⟨o, ho, rfl, rfl⟩
  | arrives _ _ _ _ => exact .inl ⟨o, ho, rfl, rfl⟩
  | rests _ _ hnone happ =>
      rw [append_eq happ] at ho
      rcases mem_setQ_append ho with ho | ⟨hside, hp, heq⟩
      · exact .inl ⟨o, ho, rfl, rfl⟩
      · exact .inr ⟨hside, hp, heq, fun _ => hnone⟩
  | real hid _ hsweep hbo happ =>
      rw [append_eq happ] at ho
      rcases mem_setQ_append ho with ho | ⟨hside, hp, heq⟩
      · rw [checkForBoChange_qs hbo] at ho
        exact .inl ((fillStraySimOrders_thins hsweep side p).descends o ho)
      · refine .inr ⟨hside, hp, heq, fun hsim => ?_⟩
        rw [hid] at hsim
        cases hsim

theorem mod_mem {cfg : Cfg} {b b' : Book} {a : ModArgs} {n : List Note}
    (h : b.mod cfg a = some (b', n)) {side : Side} {p : ℤ} {o : Order}
    (ho : o ∈ b'.qs side p) : ∃ o₀ ∈ b.qs side p, o₀.id = o.id ∧ o₀.side = o.side := by
  have hset : ∀ {o' : Order} {q : List Order} {n' : List Note},
      (b.qs a.side a.px).find? (fun o => o.id == a.id) = some o' →
      modQ (b.qs a.side a.px) o' a = some (q, n') → o ∈ (b.setQ a.side a.px q).qs side p →
      ∃ o₀ ∈ b.qs side p, o₀.id = o.id ∧ o₀.side = o.side := by
    intro o' q n' hfound hq hmem
    rw [qs_setQ] at hmem
    split at hmem
    next hat =>
      obtain ⟨rfl, rfl⟩ := hat
      exact modQ_descends (List.mem_of_find?_eq_some hfound) hq o hmem
    next => exact ⟨o, hmem, rfl, rfl⟩
  cases mod_cases h with
  | offLadder _ => exact ⟨o, ho, rfl, rfl⟩
  | missed _ _ _ => exact ⟨o, ho, rfl, rfl⟩
  | sim _ _ hfound hq => exact hset hfound hq ho
  | real _ _ hfound hq hadj =>
      rw [adjust_qs hadj] at ho
      exact hset hfound hq ho

theorem clear_qs {cfg : Cfg} {b b' : Book} {n : List Note} (h : b.clear cfg = some (b', n))
    (side : Side) (p : ℤ) : b'.qs side p = [] := by
  obtain ⟨bids, -, h⟩ := Option.bind_eq_some_iff.mp h
  obtain ⟨asks, -, heq⟩ := Option.map_eq_some_iff.mp h
  cases heq
  cases side <;> rfl

/-- **No call makes an order out of nothing.**  One of ours that is added did not fill on
    arrival. -/
theorem step_mem {cfg : Cfg} {b b' : Book} {c : Call} {n : List Note}
    (h : step cfg b c = some (b', n)) {side : Side} {p : ℤ} {o : Order}
    (ho : o ∈ b'.qs side p) :
    (∃ o₀ ∈ b.qs side p, o₀.id = o.id ∧ o₀.side = o.side) ∨
      ∃ currtim a, c = .add currtim a ∧ a.side = side ∧ a.px = p ∧ o = a.order ∧
        (isSim a.id = true → b.arrivalPx a.side a.px = none) := by
  cases c with
  | add currtim a =>
      refine (add_mem h ho).imp_right ?_
      exact fun ⟨hside, hp, heq, hrest⟩ => ⟨currtim, a, rfl, hside, hp, heq, hrest⟩
  | mod a => exact .inl (mod_mem h ho)
  | clear =>
      rw [clear_qs h] at ho
      cases ho

/-! ### What the sweep leaves -/

/-- The orders of each side are in its queues. -/
def Sided (b : Book) : Prop := ∀ side p, ∀ o ∈ b.qs side p, o.side = side

theorem sided_new (cfg : Cfg) : Sided (Book.new cfg) := by
  intro side p o ho
  cases side <;> cases ho

theorem step_sided {cfg : Cfg} {b b' : Book} {c : Call} {n : List Note} (hb : Sided b)
    (h : step cfg b c = some (b', n)) : Sided b' := by
  intro side p o ho
  rcases step_mem h ho with ⟨o₀, ho₀, -, hside⟩ | ⟨currtim, a, -, hside, -, rfl, -⟩
  · rw [← hside]
    exact hb side p o₀ ho₀
  · exact hside

/-- What the sweep leaves of a queue: the exchange's orders in simulation, nothing in live. -/
def sweptQ (cfg : Cfg) (q : List Order) : List Order := if cfg.doCrossCheck then reals q else []

/-- What it counts. -/
def sweptCount (cfg : Cfg) (q : List Order) : ℕ :=
  if cfg.doCrossCheck then 0 else (reals q).length

/-- One order filled for its whole size is gone. -/
theorem fill_whole {px : ℤ} {tim : ℕ} {o : Order} {left : List Order} {n : List Note}
    (h : fill px tim [o] o.sz = some (left, n)) : left = [] := by
  cases (fill_cases h).2 with
  | goesOn _ _ hmore _ => exact absurd hmore.1 (by omega)
  | ends _ _ _ => rfl
  | inPart hlt _ => exact absurd hlt (lt_irrefl _)

theorem sweepQ_eq {cfg : Cfg} {contra : Side} {px : ℤ} {tim : ℕ} {q q' : List Order}
    {n : List Note} {c : ℕ} (hsided : ∀ o ∈ q, o.side = contra)
    (h : sweepQ cfg contra px tim q = some (q', n, c)) :
    q' = sweptQ cfg q ∧ c = sweptCount cfg q := by
  induction q generalizing q' n c with
  | nil =>
      cases h
      unfold sweptQ sweptCount
      constructor <;> split <;> rfl
  | cons o os ih =>
      obtain ⟨hside, hrest⟩ := List.forall_mem_cons.mp hsided
      cases sweepQ_cases h with
      | fills hsim _ hfill hrest' =>
          obtain ⟨rfl, rfl⟩ := ih hrest hrest'
          -- one of ours is filled for its whole size
          have hleft := fill_whole hfill
          unfold sweptQ sweptCount
          rw [hleft, reals_cons_of_sim hsim]
          exact ⟨rfl, rfl⟩
      | cancels hcanc _ hrest' =>
          obtain ⟨rfl, rfl⟩ := ih hrest hrest'
          unfold sweptQ sweptCount
          rw [hcanc.1, reals_cons_of_real hcanc.2.1]
          exact ⟨rfl, rfl⟩
      | stays hours hcanc hrest' =>
          obtain ⟨rfl, rfl⟩ := ih hrest hrest'
          have hreal : o.isSim = false := Bool.eq_false_iff.mpr fun hsim => hours ⟨hsim, hside⟩
          have hsimul : cfg.doCrossCheck = true := by
            rcases hmode : cfg.doCrossCheck with _ | _
            · exact absurd ⟨hmode, hreal, hside⟩ hcanc
            · rfl
          unfold sweptQ sweptCount
          rw [hsimul, reals_cons_of_real hreal]
          exact ⟨rfl, rfl⟩

/-- The levels of a sweep: `k` of them from `p` on in direction `d`. -/
def levelsFrom (d p : ℤ) (k : ℕ) : Finset ℤ := (Finset.range k).image fun j : ℕ => p + d * j

theorem mem_levelsFrom {d p r : ℤ} {k : ℕ} :
    r ∈ levelsFrom d p k ↔ ∃ j : ℕ, j < k ∧ p + d * j = r := by
  simp [levelsFrom]

theorem levelsFrom_succ (d p : ℤ) (k : ℕ) :
    levelsFrom d p (k + 1) = insert p (levelsFrom d (p + d) k) := by
  have hshift : ∀ j : ℕ, p + d + d * j = p + d * (j + 1 : ℕ) := by
    intro j
    rw [Int.natCast_succ, Int.mul_add, Int.mul_one]
    omega
  ext r
  rw [Finset.mem_insert, mem_levelsFrom, mem_levelsFrom]
  constructor
  · rintro ⟨j, hj, rfl⟩
    cases j with
    | zero => exact .inl (by simp)
    | succ j => exact .inr ⟨j, Nat.lt_of_succ_lt_succ hj, hshift j⟩
  · rintro (rfl | ⟨j, hj, rfl⟩)
    · exact ⟨0, Nat.succ_pos k, by simp⟩
    · exact ⟨j + 1, Nat.succ_lt_succ hj, (hshift j).symm⟩

theorem levelsFrom_up (p px : ℤ) : levelsFrom 1 p (px - p + 1).toNat = Finset.Icc p px := by
  ext r
  rw [mem_levelsFrom, Finset.mem_Icc]
  constructor
  · rintro ⟨j, hj, rfl⟩
    omega
  · intro hr
    exact ⟨(r - p).toNat, by omega, by omega⟩

theorem levelsFrom_down (p px : ℤ) : levelsFrom (-1) p (p - px + 1).toNat = Finset.Icc px p := by
  ext r
  rw [mem_levelsFrom, Finset.mem_Icc]
  constructor
  · rintro ⟨j, hj, rfl⟩
    omega
  · intro hr
    exact ⟨(p - r).toNat, by omega, by omega⟩

theorem not_mem_levelsFrom {d p : ℤ} (hd : d = 1 ∨ d = -1) (k : ℕ) :
    p ∉ levelsFrom d (p + d) k := by
  intro hmem
  obtain ⟨j, -, hj⟩ := mem_levelsFrom.mp hmem
  rcases hd with rfl | rfl <;> omega

/-- **The loops of the sweep** visit every level up to the incoming price. -/
theorem sweep_eq {cfg : Cfg} {contra : Side} {d : ℤ} {stop : ℤ → Bool} {tim k : ℕ} {p : ℤ}
    {qs qs' : ℤ → List Order} {n : List Note} {c : ℕ} (hd : d = 1 ∨ d = -1)
    (hsided : ∀ r, ∀ o ∈ qs r, o.side = contra)
    (hstop : ∀ r ∈ levelsFrom d p k, r ≠ p → stop r = false)
    (h : sweep cfg contra d stop tim k p qs = some (qs', n, c)) :
    (∀ r, qs' r = if r ∈ levelsFrom d p k then sweptQ cfg (qs r) else qs r) ∧
      c = ∑ r ∈ levelsFrom d p k, sweptCount cfg (qs r) := by
  induction k generalizing p qs qs' n c with
  | zero =>
      cases h
      exact ⟨fun r => rfl, rfl⟩
  | succ k ih =>
      have hnew := not_mem_levelsFrom (p := p) hd k
      obtain ⟨q, nq, cq, hq, hgo⟩ := sweep_cases h
      obtain ⟨rfl, rfl⟩ := sweepQ_eq (hsided p) hq
      rw [levelsFrom_succ] at hstop ⊢
      have hothers : ∀ r ∈ levelsFrom d (p + d) k,
          Function.update qs p (sweptQ cfg (qs p)) r = qs r := by
        intro r hr
        apply Function.update_of_ne
        rintro rfl
        exact hnew hr
      obtain ⟨hend, rfl, -, rfl⟩ | ⟨nr, cr, -, -, rfl, hrest⟩ := hgo
      · -- the loop is left after the last level
        have hk : levelsFrom d (p + d) k = ∅ := by
          cases k with
          | zero => rfl
          | succ k =>
              have hmem : p + d ∈ levelsFrom d (p + d) (k + 1) := by
                rw [levelsFrom_succ]
                exact Finset.mem_insert_self ..
              have hne : p + d ≠ p := by rcases hd with rfl | rfl <;> omega
              rw [hstop _ (Finset.mem_insert_of_mem hmem) hne] at hend
              cases hend
        rw [hk]
        refine ⟨fun r => ?_, by simp⟩
        by_cases hr : r = p
        · subst hr
          simp
        · simp [hr]
      · have hsided' : ∀ r, ∀ o ∈ Function.update qs p (sweptQ cfg (qs p)) r,
            o.side = contra := by
          intro r o ho
          by_cases hr : r = p
          · subst hr
            rw [Function.update_self, sweptQ] at ho
            split at ho
            · exact hsided r o (mem_reals.mp ho).1
            · cases ho
          · rw [Function.update_of_ne hr] at ho
            exact hsided r o ho
        have hstop' : ∀ r ∈ levelsFrom d (p + d) k, r ≠ p + d → stop r = false := by
          intro r hr _
          apply hstop r (Finset.mem_insert_of_mem hr)
          rintro rfl
          exact hnew hr
        obtain ⟨hqs, hcount⟩ := ih hsided' hstop' hrest
        constructor
        · intro r
          rw [hqs r]
          by_cases hr : r ∈ levelsFrom d (p + d) k
          · rw [if_pos hr, if_pos (Finset.mem_insert_of_mem hr), hothers r hr]
          · rw [if_neg hr]
            by_cases hrp : r = p
            · subst hrp
              rw [Function.update_self, if_pos (Finset.mem_insert_self ..)]
            · rw [Function.update_of_ne hrp, if_neg]
              rw [Finset.mem_insert, not_or]
              exact ⟨hrp, hr⟩
        · rw [Finset.sum_insert hnew]
          have hsame : ∑ r ∈ levelsFrom d (p + d) k,
              sweptCount cfg (Function.update qs p (sweptQ cfg (qs p)) r) =
                ∑ r ∈ levelsFrom d (p + d) k, sweptCount cfg (qs r) :=
            Finset.sum_congr rfl fun r hr => by rw [hothers r hr]
          rw [← hsame, ← hcount]

/-- The levels that an add at `px` sweeps on the other side. -/
noncomputable def Book.sweptLevels (cfg : Cfg) (b : Book) (side : Side) (px : ℤ) : Finset ℤ :=
  match side with
  | .buy =>
      if b.bestBid < px ∨ (cfg.doCrossCheck = false ∧ b.bestAsk ≤ px) then
        Finset.Icc (if cfg.doCrossCheck then b.bestBid else min b.bestBid b.bestAsk) px
      else ∅
  | .sel =>
      if px < b.bestAsk ∨ (cfg.doCrossCheck = false ∧ px ≤ b.bestBid) then
        Finset.Icc px (if cfg.doCrossCheck then b.bestAsk else max b.bestAsk b.bestBid)
      else ∅

/-- **What `fill_stray_sim_orders` does**: the swept levels of the other side lose their
    orders, and nothing else changes. -/
theorem fillStraySimOrders_eq {cfg : Cfg} {b b' : Book} {side : Side} {px : ℤ} {txtim : ℕ}
    {n : List Note} {c : ℕ} (hb : Sided b) (hpx : 0 < px ∧ px < cfg.maxprice)
    (h : b.fillStraySimOrders cfg side px txtim = some (b', n, c)) :
    ∃ qs, b' = { b.setQs side.other qs with numCrossRecover := b.numCrossRecover + c } ∧
      (∀ r, qs r = if r ∈ b.sweptLevels cfg side px then sweptQ cfg (b.qs side.other r)
        else b.qs side.other r) ∧
      c = ∑ r ∈ b.sweptLevels cfg side px, sweptCount cfg (b.qs side.other r) := by
  cases side with
  | buy =>
      obtain ⟨⟨qs, n', c'⟩, hswept, heq⟩ := Option.map_eq_some_iff.mp h
      cases heq
      refine ⟨qs, rfl, ?_⟩
      dsimp only at hswept
      unfold Book.sweptLevels
      dsimp only
      split at hswept
      next hcross =>
        rw [if_pos hcross]
        have hspec := sweep_eq (.inl rfl) (hb .sel) (fun r hr _ => ?_) hswept
        · rw [levelsFrom_up] at hspec
          exact hspec
        · rw [levelsFrom_up, Finset.mem_Icc] at hr
          exact decide_eq_false (by omega)
      next hcross =>
        cases hswept
        rw [if_neg hcross]
        exact ⟨fun r => rfl, rfl⟩
  | sel =>
      obtain ⟨⟨qs, n', c'⟩, hswept, heq⟩ := Option.map_eq_some_iff.mp h
      cases heq
      refine ⟨qs, rfl, ?_⟩
      dsimp only at hswept
      unfold Book.sweptLevels
      dsimp only
      split at hswept
      next hcross =>
        rw [if_pos hcross]
        have hspec := sweep_eq (.inr rfl) (hb .buy) (fun r hr _ => ?_) hswept
        · rw [levelsFrom_down] at hspec
          exact hspec
        · rw [levelsFrom_down, Finset.mem_Icc] at hr
          exact decide_eq_false (by omega)
      next hcross =>
        cases hswept
        rw [if_neg hcross]
        exact ⟨fun r => rfl, rfl⟩

/-! ### Live books -/

/-- Level `p` of the other side is crossed by an order of `side` at `px`. -/
def Crosses (side : Side) (px p : ℤ) : Prop :=
  match side with
  | .buy => p ≤ px
  | .sel => px ≤ p

instance (side : Side) (px : ℤ) : DecidablePred (Crosses side px) := fun p =>
  match side with
  | .buy => inferInstanceAs (Decidable (p ≤ px))
  | .sel => inferInstanceAs (Decidable (px ≤ p))

/-- No real bid is at or above a real ask. -/
def Uncrossed (b : Book) : Prop :=
  ∀ p r, HasReal b.bidqs p → HasReal b.askqs r → p < r

/-- What the add of a real order does in live. -/
structure AddUncrosses (cfg : Cfg) (a : AddArgs) (b b' : Book) : Prop where
  removed : ∀ p, Crosses a.side a.px p → b'.qs a.side.other p = []
  kept : ∀ p, ¬ Crosses a.side a.px p → b'.qs a.side.other p = b.qs a.side.other p
  appended : b'.qs a.side =
    Function.update (b.qs a.side) a.px (b.qs a.side a.px ++ [a.order])
  counted : b'.numCrossRecover = b.numCrossRecover +
    ∑ p ∈ (Finset.Icc 0 (cfg.maxprice + 1)).filter (Crosses a.side a.px),
      (b.qs a.side.other p).length

/-- A live book without our orders. -/
structure Live (cfg : Cfg) (b : Book) : Prop where
  best : BestPrices cfg b
  sided : Sided b
  real : ∀ side p, ∀ o ∈ b.qs side p, o.isSim = false
  on_ladder : ∀ side p, ∀ o ∈ b.qs side p, 0 < p ∧ p < cfg.maxprice

theorem live_new (cfg : Cfg) : Live cfg (Book.new cfg) where
  best := bestPrices_new cfg
  sided := sided_new cfg
  real := by
    intro side p o ho
    cases side <;> cases ho
  on_ladder := by
    intro side p o ho
    cases side <;> cases ho

theorem step_live {cfg : Cfg} {b b' : Book} {c : Call} {n : List Note} (hb : Live cfg b)
    (hladder : InLadder cfg c) (hreal : isRealCall c = true)
    (h : step cfg b c = some (b', n)) : Live cfg b' where
  best := step_best hb.best hladder h
  sided := step_sided hb.sided h
  real := by
    intro side p o ho
    rcases step_mem h ho with ⟨o₀, ho₀, hid, -⟩ | ⟨currtim, a, rfl, -, -, rfl, -⟩
    · rw [Order.isSim, ← hid]
      exact hb.real side p o₀ ho₀
    · change isSim a.id = false
      simpa [isRealCall] using hreal
  on_ladder := by
    intro side p o ho
    rcases step_mem h ho with ⟨o₀, ho₀, -, -⟩ | ⟨currtim, a, rfl, -, rfl, -, -⟩
    · exact hb.on_ladder side p o₀ ho₀
    · exact hladder

theorem Live.bestAsk_pos {cfg : Cfg} {b : Book} (hb : Live cfg b) : 0 < b.bestAsk := by
  have hmax := cfg.one_lt_maxprice
  rcases hb.best.ask with ⟨⟨o, ho, -⟩, -⟩ | ⟨-, hp | hp⟩
  · exact (hb.on_ladder .sel _ o ho).1
  · omega
  · omega

theorem Live.bestBid_lt {cfg : Cfg} {b : Book} (hb : Live cfg b) : b.bestBid < cfg.maxprice := by
  have hmax := cfg.one_lt_maxprice
  rcases hb.best.bid with ⟨⟨o, ho, -⟩, -⟩ | ⟨-, hp | hp⟩
  · exact (hb.on_ladder .buy _ o ho).2
  · omega
  · omega

theorem Live.hasReal {cfg : Cfg} {b : Book} (hb : Live cfg b) {side : Side} {p : ℤ}
    (hp : b.qs side p ≠ []) : HasReal (b.qs side) p := by
  obtain ⟨o, ho⟩ := List.exists_mem_of_ne_nil _ hp
  exact ⟨o, ho, hb.real side p o ho⟩

/-- The swept levels are crossed, and inside the queues. -/
theorem Live.crosses_of_swept {cfg : Cfg} {b : Book} {side : Side} {px p : ℤ} (hb : Live cfg b)
    (hlive : cfg.doCrossCheck = false) (hpx : 0 < px ∧ px < cfg.maxprice)
    (hp : p ∈ b.sweptLevels cfg side px) :
    Crosses side px p ∧ 0 ≤ p ∧ p ≤ cfg.maxprice + 1 := by
  have hbid := hb.best.bestBid_nonneg
  have hbid' := hb.bestBid_lt
  have hask := hb.bestAsk_pos
  have hask' := hb.best.bestAsk_le
  unfold Book.sweptLevels at hp
  unfold Crosses
  simp only [hlive, Bool.false_eq_true, if_false] at hp
  cases side with
  | buy =>
      dsimp only at hp ⊢
      split at hp
      · rw [Finset.mem_Icc] at hp
        omega
      · simp at hp
  | sel =>
      dsimp only at hp ⊢
      split at hp
      · rw [Finset.mem_Icc] at hp
        omega
      · simp at hp

/-- A level that is crossed and not swept is empty. -/
theorem Live.crossed_empty {cfg : Cfg} {b : Book} {side : Side} {px p : ℤ} (hb : Live cfg b)
    (hlive : cfg.doCrossCheck = false) (hcross : Crosses side px p)
    (hp : p ∉ b.sweptLevels cfg side px) : b.qs side.other p = [] := by
  by_contra hne
  have hreal := hb.hasReal hne
  apply hp
  unfold Book.sweptLevels
  unfold Crosses at hcross
  simp only [hlive, Bool.false_eq_true, if_false, true_and]
  cases side with
  | buy =>
      have hle := hb.best.ask.le hreal
      dsimp only at hcross ⊢
      rw [if_pos (.inr (by omega)), Finset.mem_Icc]
      omega
  | sel =>
      have hle := hb.best.bid.le hreal
      dsimp only at hcross ⊢
      rw [if_pos (.inr (by omega)), Finset.mem_Icc]
      omega

theorem notifybbbosubs_numCrossRecover {b b' : Book} {txtim : ℕ} {side : Side} {venue : ℕ}
    {n : List Note} (h : b.notifybbbosubs txtim side venue = some (b', n)) :
    b'.numCrossRecover = b.numCrossRecover := by
  unfold Book.notifybbbosubs at h
  split_ifs at h <;> cases h <;> rfl

theorem checkForBoChange_numCrossRecover {cfg : Cfg} {b b' : Book} {side : Side} {px : ℤ}
    {txtim venue c : ℕ} {n : List Note}
    (h : b.checkForBoChange cfg side px txtim venue c = some (b', n)) :
    b'.numCrossRecover = b.numCrossRecover := by
  have hnotify : ∀ {b₁ : Book} {p : Prop} {dp : Decidable p} {side : Side},
      (if p then b₁.notifybbbosubs txtim side venue else some (b₁, [])) = some (b', n) →
      b'.numCrossRecover = b₁.numCrossRecover := by
    intro b₁ p dp side h
    split at h
    · exact notifybbbosubs_numCrossRecover h
    · cases h
      rfl
  cases side with
  | buy =>
      simp only [Book.checkForBoChange] at h
      generalize (if b.bestBid < px then px else b.bestBid) = bb at h
      split at h
      · split at h
        · cases h
        · exact (hnotify h).trans rfl
      · exact (hnotify h).trans rfl
  | sel =>
      simp only [Book.checkForBoChange] at h
      generalize (if px < b.bestAsk then px else b.bestAsk) = ba at h
      split at h
      · split at h
        · cases h
        · exact (hnotify h).trans rfl
      · exact (hnotify h).trans rfl

/-- **The add of a real order in live** takes away the orders it crosses, counts each of them,
    and leaves the others where they are. -/
theorem add_uncrosses {cfg : Cfg} {currtim : ℕ} {b b' : Book} {a : AddArgs} {n : List Note}
    (hlive : cfg.doCrossCheck = false) (hb : Live cfg b) (hid : isSim a.id = false)
    (hpx : 0 < a.px ∧ a.px < cfg.maxprice) (h : b.add cfg currtim a = some (b', n)) :
    AddUncrosses cfg a b b' := by
  obtain ⟨b₁, n₁, c, b₂, n₂, hsweep, hbo, rfl⟩ := add_real hid hpx.2 h
  obtain ⟨qs, rfl, hqs, hcount⟩ := fillStraySimOrders_eq hb.sided hpx hsweep
  have hside : a.side.other ≠ a.side := by cases a.side <;> exact nofun
  have hother : ∀ (q : List Order) p, (b₂.setQ a.side a.px q).qs a.side.other p =
      if p ∈ b.sweptLevels cfg a.side a.px then [] else b.qs a.side.other p := by
    intro q p
    have hqs₂ : b₂.qs a.side.other = qs := by
      rw [checkForBoChange_qs hbo]
      exact (qs_setQs b a.side.other qs a.side.other).trans (if_pos rfl)
    rw [qs_setQ, if_neg (fun hat => hside hat.1), hqs₂, hqs, sweptQ, hlive]
    rfl
  have hown : b₂.qs a.side = b.qs a.side := by
    rw [checkForBoChange_qs hbo]
    exact (qs_setQs b a.side.other qs a.side).trans (if_neg hside.symm)
  refine ⟨?_, ?_, ?_, ?_⟩
  · intro p hcross
    rw [hother]
    split
    · rfl
    next hnot => exact hb.crossed_empty hlive hcross hnot
  · intro p hcross
    rw [hother, if_neg]
    intro hp
    exact hcross (hb.crosses_of_swept hlive hpx hp).1
  · funext p
    rw [qs_setQ, hown, Function.update_apply]
    simp only [true_and]
  · have hlength : ∀ p, sweptCount cfg (b.qs a.side.other p) = (b.qs a.side.other p).length := by
      intro p
      have hreals : reals (b.qs a.side.other p) = b.qs a.side.other p :=
        List.filter_eq_self.mpr fun o ho => by simpa using hb.real _ p o ho
      rw [sweptCount, hlive, hreals]
      rfl
    have hcross : (b₂.setQ a.side a.px (b₂.qs a.side a.px ++ [a.order])).numCrossRecover =
        b₂.numCrossRecover := by cases a.side <;> rfl
    have hsetQs : (b.setQs a.side.other qs).numCrossRecover = b.numCrossRecover := by
      cases a.side <;> rfl
    rw [hcross, checkForBoChange_numCrossRecover hbo, hcount]
    change b.numCrossRecover + _ = _
    congr 1
    rw [Finset.sum_congr rfl fun p _ => hlength p]
    -- the crossed levels that are not swept are empty
    apply Finset.sum_subset
    · intro p hp
      obtain ⟨hcross, hrange⟩ := hb.crosses_of_swept hlive hpx hp
      exact Finset.mem_filter.mpr ⟨Finset.mem_Icc.mpr hrange, hcross⟩
    · intro p hp hnot
      rw [hb.crossed_empty hlive (Finset.mem_filter.mp hp).2 hnot]
      rfl

/-- An add leaves the book uncrossed. -/
theorem AddUncrosses.uncrossed {cfg : Cfg} {a : AddArgs} {b b' : Book} (hb : Uncrossed b)
    (h : AddUncrosses cfg a b b') : Uncrossed b' := by
  obtain ⟨hremoved, hkept, happended, -⟩ := h
  -- a level of the other side that still has orders is not crossed
  have hother : ∀ p, HasReal (b'.qs a.side.other) p →
      ¬ Crosses a.side a.px p ∧ HasReal (b.qs a.side.other) p := by
    rintro p ⟨o, ho, hreal⟩
    have hnot : ¬ Crosses a.side a.px p := by
      intro hcross
      rw [hremoved p hcross] at ho
      cases ho
    exact ⟨hnot, o, hkept p hnot ▸ ho, hreal⟩
  have hown : ∀ p, HasReal (b'.qs a.side) p → p = a.px ∨ HasReal (b.qs a.side) p := by
    rintro p ⟨o, ho, hreal⟩
    rw [happended, Function.update_apply] at ho
    split at ho
    next heq => exact .inl heq
    · exact .inr ⟨o, ho, hreal⟩
  intro p r hp hr
  rcases hside : a.side with _ | _
  · rw [hside] at hother hown
    obtain ⟨hnot, hr⟩ := hother r hr
    rcases hown p hp with rfl | hp
    · exact not_le.mp hnot
    · exact hb p r hp hr
  · rw [hside] at hother hown
    obtain ⟨hnot, hp⟩ := hother p hp
    rcases hown r hr with rfl | hr
    · exact not_le.mp hnot
    · exact hb p r hp hr

theorem step_uncrossed {cfg : Cfg} {b b' : Book} {c : Call} {n : List Note}
    (hlive : cfg.doCrossCheck = false) (hb : Live cfg b) (hunc : Uncrossed b)
    (hladder : InLadder cfg c) (hreal : isRealCall c = true)
    (h : step cfg b c = some (b', n)) : Uncrossed b' := by
  cases c with
  | add currtim a =>
      have hid : isSim a.id = false := by simpa [isRealCall] using hreal
      exact (add_uncrosses hlive hb hid hladder h).uncrossed hunc
  | mod a =>
      have hold : ∀ side p, HasReal (b'.qs side) p → HasReal (b.qs side) p := by
        rintro side p ⟨o, ho, hreal⟩
        obtain ⟨o₀, ho₀, hid, -⟩ := mod_mem h ho
        refine ⟨o₀, ho₀, ?_⟩
        rw [Order.isSim, hid]
        exact hreal
      exact fun p r hp hr => hunc p r (hold .buy p hp) (hold .sel r hr)
  | clear =>
      rintro p r ⟨o, ho, -⟩
      have hempty : b'.bidqs p = [] := clear_qs h .buy p
      rw [hempty] at ho
      cases ho

/-- **Live books are never locked or crossed**, and the add of a real order takes away the
    orders it crosses and no others. -/
theorem live_uncrossed {cfg : Cfg} {cs : List Call} {b : Book} {out : List Note}
    (hrun : run (step cfg) (Book.new cfg) cs = some (b, out)) (hlive : cfg.doCrossCheck = false)
    (hladder : ∀ c ∈ cs, InLadder cfg c) (hreal : ∀ c ∈ cs, isRealCall c = true) :
    Uncrossed b ∧
      ∀ currtim a b' n, isSim a.id = false → 0 < a.px → a.px < cfg.maxprice →
        b.add cfg currtim a = some (b', n) → AddUncrosses cfg a b b' := by
  have hinv : Live cfg b ∧ Uncrossed b := by
    refine run_induction (I := fun _ _ b => Live cfg b ∧ Uncrossed b) ?_ ?_
      (allSteps_and (allSteps_of_forall hladder _) (allSteps_of_forall hreal _)) hrun
    · refine ⟨live_new cfg, ?_⟩
      rintro p r ⟨o, ho, -⟩
      cases ho
    · intro _ _ b c b' n hb hc h
      exact ⟨step_live hb.1 hc.1 hc.2 h, step_uncrossed hlive hb.1 hb.2 hc.1 hc.2 h⟩
  refine ⟨hinv.2, ?_⟩
  intro currtim a b' n hid hpos hlt h
  exact add_uncrosses hlive hinv.1 hid ⟨hpos, hlt⟩ h

/-- Two asks and a bid. -/
def liveCalls : List Call :=
  [realAdd 1 .sel 5 10, realAdd 2 .sel 7 10, realAdd 3 .buy 4 10]

/-- A bid that crosses the lower ask. -/
def crossingBid : AddArgs where
  txtim := 5
  id := ⟨1, 4⟩
  side := .buy
  px := 6
  sz := 10
  sender := none
  ot := .uni
  owner := 0
  exordid := 4
  venue := 1

theorem live_uncrossed_crossing :
    ∃ b out b' n, run (step (smallCfg false)) (Book.new (smallCfg false)) liveCalls = some (b, out) ∧
      Uncrossed b ∧ b.add (smallCfg false) 1 crossingBid = some (b', n) ∧
      AddUncrosses (smallCfg false) crossingBid b b' ∧ b'.numCrossRecover = 1 := by
  have hcrossed : (run (step (smallCfg false)) (Book.new (smallCfg false))
      (liveCalls ++ [.add 1 crossingBid])).map (fun r => r.1.numCrossRecover) = some 1 := by
    decide +kernel
  obtain ⟨⟨b', out'⟩, hrun', hcount⟩ := Option.map_eq_some_iff.mp hcrossed
  obtain ⟨b, out, n, hrun, hadd, -⟩ := run_concat.mp hrun'
  have hladder : ∀ c ∈ liveCalls, InLadder (smallCfg false) c := by
    simp [liveCalls, realAdd, InLadder, smallCfg]
  have hreal : ∀ c ∈ liveCalls, isRealCall c = true := by
    simp only [liveCalls, List.forall_mem_cons]
    decide
  obtain ⟨hunc, hadds⟩ := live_uncrossed hrun rfl hladder hreal
  exact ⟨b, out, b', n, hrun, hunc, hadd,
    hadds 1 crossingBid b' n rfl (by decide) (by decide) hadd, hcount⟩

end KasparHft.OB
