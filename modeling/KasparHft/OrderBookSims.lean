import KasparHft.Machine
import KasparHft.OrderBookCalls
import Mathlib.Data.List.TakeWhile

/-!
# Our orders in the order book

In simulation the book holds our own orders among the exchange's.  They are filled, swept
and cancelled by the calls on real orders, and must not change what these calls do to the
exchange's orders: the book without ours takes a call on a real order just as the book does,
and does not see a call on one of ours.
-/

namespace KasparHft.OB

open Ladder Machine

/-! ### The exchange's orders -/

/-- The exchange's orders of a queue. -/
def reals (q : List Order) : List Order := q.filter fun o => !o.isSim

/-- A real order rests at level `p`. -/
def HasReal (qs : ℤ → List Order) (p : ℤ) : Prop := ∃ o ∈ qs p, o.isSim = false

/-- The book without our own orders. -/
def Book.noSims (b : Book) : Book :=
  { b with bidqs := reals ∘ b.bidqs, askqs := reals ∘ b.askqs }

@[simp] theorem reals_nil : reals [] = [] := rfl

theorem reals_cons_of_sim {o : Order} (h : o.isSim = true) (q : List Order) :
    reals (o :: q) = reals q := by
  simp [reals, h]

theorem reals_cons_of_real {o : Order} (h : o.isSim = false) (q : List Order) :
    reals (o :: q) = o :: reals q := by
  simp [reals, h]

@[simp] theorem reals_append (q q' : List Order) : reals (q ++ q') = reals q ++ reals q' :=
  List.filter_append ..

theorem mem_reals {o : Order} {q : List Order} : o ∈ reals q ↔ o ∈ q ∧ o.isSim = false := by
  simp [reals]

theorem hasReal_of_reals_eq {qs qs' : ℤ → List Order} (h : ∀ p, reals (qs' p) = reals (qs p))
    (p : ℤ) : HasReal qs' p ↔ HasReal qs p := by
  have hmem : ∀ (qs : ℤ → List Order), HasReal qs p ↔ ∃ o, o ∈ reals (qs p) := by
    intro qs
    simp only [HasReal, mem_reals]
  rw [hmem, hmem, h]

theorem emptyOrAllSim_iff {qs : ℤ → List Order} {p : ℤ} :
    emptyOrAllSim (qs p) = true ↔ ¬ HasReal qs p := by
  simp [emptyOrAllSim, HasReal]

theorem emptyOrAllSim_reals (q : List Order) : emptyOrAllSim (reals q) = emptyOrAllSim q := by
  induction q with
  | nil => rfl
  | cons o q ih =>
      rcases ho : o.isSim with _ | _
      · simp [reals_cons_of_real ho, emptyOrAllSim, ho]
      · rw [reals_cons_of_sim ho, ih]
        simp [emptyOrAllSim, ho]

@[simp] theorem qs_noSims (b : Book) (side : Side) : b.noSims.qs side = reals ∘ b.qs side := by
  cases side <;> rfl

@[simp] theorem setQs_noSims (b : Book) (side : Side) (qs : ℤ → List Order) :
    (b.setQs side qs).noSims = b.noSims.setQs side (reals ∘ qs) := by
  cases side <;> rfl

theorem setQ_noSims (b : Book) (side : Side) (px : ℤ) (q : List Order) :
    (b.setQ side px q).noSims = b.noSims.setQ side px (reals q) := by
  unfold Book.setQ
  rw [setQs_noSims, qs_noSims, Function.comp_update]

/-! ### Queues -/

/-- Fills are of our own orders. -/
theorem fill_reals {px : ℤ} {tim : ℕ} {l l' : List Order} {sz : ℤ} {n : List Note}
    (h : fill px tim l sz = some (l', n)) : reals l' = reals l := by
  induction l generalizing sz l' n with
  | nil =>
      cases h
      rfl
  | cons s prev ih =>
      obtain ⟨hsim, hfills⟩ := fill_cases h
      rw [reals_cons_of_sim hsim]
      cases hfills with
      | goesOn _ _ _ hrest => exact ih hrest
      | ends _ _ _ => rfl
      | inPart _ hfill =>
          -- a partial fill keeps the id
          obtain ⟨-, -, -, -, -, rfl, -⟩ := fillNotify_eq_some.mp hfill
          exact reals_cons_of_sim (o := { s with sz := s.sz - sz }) hsim prev

/-- The sweep of a queue, on the real orders of the queue alone. -/
theorem sweepQ_reals {cfg : Cfg} {contra : Side} {px : ℤ} {tim : ℕ} {q q' : List Order}
    {n : List Note} {c : ℕ} (h : sweepQ cfg contra px tim q = some (q', n, c)) :
    ∃ n', sweepQ cfg contra px tim (reals q) = some (reals q', n', c) := by
  induction q generalizing q' n c with
  | nil =>
      cases h
      exact ⟨[], rfl⟩
  | cons o os ih =>
      cases sweepQ_cases h with
      | fills hsim _ hfill hrest =>
          obtain ⟨n', hn'⟩ := ih hrest
          refine ⟨n', ?_⟩
          rw [reals_cons_of_sim hsim, reals_append, fill_reals hfill, reals_cons_of_sim hsim]
          exact hn'
      | @cancels _ _ nc _ _ hcanc hnotify hrest =>
          obtain ⟨n', hn'⟩ := ih hrest
          have hours : ¬ (o.isSim = true ∧ o.side = contra) := by
            rintro ⟨hsim, -⟩
            rw [hcanc.2.1] at hsim
            cases hsim
          obtain rfl := cancNotify_cancd hnotify
          refine ⟨nc ++ n', ?_⟩
          rw [reals_cons_of_real hcanc.2.1, sweepQ, if_neg hours, if_pos hcanc, hnotify, hn']
          rfl
      | stays hours hcanc hrest =>
          obtain ⟨n', hn'⟩ := ih hrest
          refine ⟨n', ?_⟩
          rcases ho : o.isSim with _ | _
          · rw [reals_cons_of_real ho, sweepQ, if_neg hours, if_neg hcanc, hn',
              reals_cons_of_real ho]
            rfl
          · rw [reals_cons_of_sim ho, reals_cons_of_sim ho]
            exact hn'

/-- What the sweep of a queue keeps: it adds no order, and it takes real orders only when it
    counts them, which it does in live alone. -/
theorem sweepQ_keeps {cfg : Cfg} {contra : Side} {px : ℤ} {tim : ℕ} {q q' : List Order}
    {n : List Note} {c : ℕ} (h : sweepQ cfg contra px tim q = some (q', n, c)) :
    (∀ o ∈ reals q', o ∈ reals q) ∧ (c = 0 → reals q' = reals q) ∧
      (cfg.doCrossCheck = true → c = 0) := by
  induction q generalizing q' n c with
  | nil =>
      cases h
      exact ⟨fun o ho => ho, fun _ => rfl, fun _ => rfl⟩
  | cons o os ih =>
      cases sweepQ_cases h with
      | fills hsim _ hfill hrest =>
          rw [reals_append, fill_reals hfill, reals_cons_of_sim hsim, reals_cons_of_sim hsim]
          exact ih hrest
      | cancels hcanc _ hrest =>
          rw [reals_cons_of_real hcanc.2.1]
          refine ⟨fun x hx => List.mem_cons_of_mem o ((ih hrest).1 x hx), ?_, ?_⟩
          · intro hzero
            cases hzero
          · intro hsimul
            rw [hcanc.1] at hsimul
            cases hsimul
      | stays _ _ hrest =>
          obtain ⟨hsub, hsame, hcount⟩ := ih hrest
          rcases ho : o.isSim with _ | _
          · rw [reals_cons_of_real ho, reals_cons_of_real ho]
            refine ⟨?_, fun hzero => by rw [hsame hzero], hcount⟩
            intro x hx
            rcases List.mem_cons.mp hx with rfl | hx
            · exact List.mem_cons_self
            · exact List.mem_cons_of_mem o (hsub x hx)
          · rw [reals_cons_of_sim ho, reals_cons_of_sim ho]
            exact ⟨hsub, hsame, hcount⟩

theorem sweep_reals {cfg : Cfg} {contra : Side} {d : ℤ} {stop : ℤ → Bool} {tim k : ℕ} {p : ℤ}
    {qs qs' : ℤ → List Order} {n : List Note} {c : ℕ}
    (h : sweep cfg contra d stop tim k p qs = some (qs', n, c)) :
    ∃ n', sweep cfg contra d stop tim k p (reals ∘ qs) = some (reals ∘ qs', n', c) := by
  induction k generalizing p qs qs' n c with
  | zero =>
      cases h
      exact ⟨[], rfl⟩
  | succ k ih =>
      unfold sweep at h ⊢
      split at h
      · cases h
      next hin =>
        rw [if_neg hin]
        rcases hq : sweepQ cfg contra p tim (qs p) with _ | ⟨q, nq, cq⟩
        · rw [hq] at h
          cases h
        · obtain ⟨nq', hq'⟩ := sweepQ_reals hq
          simp only [hq] at h
          simp only [Function.comp_apply, hq', ← Function.comp_update]
          split at h
          next hstop =>
            cases h
            exact ⟨nq', if_pos hstop⟩
          next hstop =>
            obtain ⟨⟨qs'', n'', c''⟩, hrest, heq⟩ := Option.map_eq_some_iff.mp h
            cases heq
            obtain ⟨n', hn'⟩ := ih hrest
            refine ⟨nq' ++ n', ?_⟩
            rw [if_neg hstop, hn']
            rfl

theorem sweep_keeps {cfg : Cfg} {contra : Side} {d : ℤ} {stop : ℤ → Bool} {tim k : ℕ} {p : ℤ}
    {qs qs' : ℤ → List Order} {n : List Note} {c : ℕ}
    (h : sweep cfg contra d stop tim k p qs = some (qs', n, c)) :
    (∀ r, HasReal qs' r → HasReal qs r) ∧ (c = 0 → ∀ r, reals (qs' r) = reals (qs r)) ∧
      (cfg.doCrossCheck = true → c = 0) := by
  induction k generalizing p qs qs' n c with
  | zero =>
      cases h
      exact ⟨fun r hr => hr, fun _ r => rfl, fun _ => rfl⟩
  | succ k ih =>
      obtain ⟨q, nq, cq, hq, hgo⟩ := sweep_cases h
      obtain ⟨hsub, hsame, hcount⟩ := sweepQ_keeps hq
      -- the one queue swept
      have hsub' : ∀ r, HasReal (Function.update qs p q) r → HasReal qs r := by
        rintro r ⟨o, ho, hreal⟩
        by_cases hr : r = p
        · subst hr
          rw [Function.update_self] at ho
          exact ⟨o, mem_reals.mp (hsub o (mem_reals.mpr ⟨ho, hreal⟩))⟩
        · rw [Function.update_of_ne hr] at ho
          exact ⟨o, ho, hreal⟩
      have hsame' : cq = 0 → ∀ r, reals (Function.update qs p q r) = reals (qs r) := by
        intro hzero r
        by_cases hr : r = p
        · subst hr
          rw [Function.update_self, hsame hzero]
        · rw [Function.update_of_ne hr]
      obtain ⟨-, rfl, -, rfl⟩ | ⟨nr, cr, -, -, rfl, hrest⟩ := hgo
      · exact ⟨hsub', hsame', hcount⟩
      · obtain ⟨hsubr, hsamer, hcountr⟩ := ih hrest
        refine ⟨fun r hr => hsub' r (hsubr r hr), ?_, ?_⟩
        · intro hzero r
          obtain ⟨hcq, hcr⟩ := Nat.add_eq_zero_iff.mp hzero
          rw [hsamer hcr, hsame' hcq]
        · intro hsimul
          exact Nat.add_eq_zero_iff.mpr ⟨hcount hsimul, hcountr hsimul⟩

/-! ### The book without our orders

Each part of a call on a real order does the same on the book without ours. -/

/-- A test that does not read our orders comes out the same on both books. -/
theorem map_ite_congr {α β : Type*} {f : α → β} {c : Prop} {d d' : Decidable c}
    {x y : Option α} {x' y' : Option β} (hx : x' = x.map f) (hy : y' = y.map f) :
    @ite _ c d x' y' = (@ite _ c d' x y).map f := by
  by_cases hc : c
  · rw [if_pos hc, if_pos hc, hx]
  · rw [if_neg hc, if_neg hc, hy]

theorem notifybbbosubs_noSims (b : Book) (bb ba : ℤ) (txtim : ℕ) (side : Side) (venue : ℕ) :
    Book.notifybbbosubs { b.noSims with bestBid := bb, bestAsk := ba } txtim side venue =
      (Book.notifybbbosubs { b with bestBid := bb, bestAsk := ba } txtim side venue).map
        fun r => (r.1.noSims, r.2) := by
  unfold Book.notifybbbosubs
  refine map_ite_congr rfl ?_
  refine map_ite_congr rfl ?_
  refine map_ite_congr rfl ?_
  exact map_ite_congr rfl rfl

theorem notifybbbosubs_keeps {b b' : Book} {txtim : ℕ} {side : Side} {venue : ℕ} {n : List Note}
    (h : b.notifybbbosubs txtim side venue = some (b', n)) :
    b'.bidqs = b.bidqs ∧ b'.askqs = b.askqs ∧ b'.bestBid = b.bestBid ∧ b'.bestAsk = b.bestAsk := by
  unfold Book.notifybbbosubs at h
  split_ifs at h <;> cases h <;> exact ⟨rfl, rfl, rfl, rfl⟩

theorem emptyOrAllSim_bidqs_noSims (b : Book) (p : ℤ) :
    emptyOrAllSim (b.noSims.bidqs p) = emptyOrAllSim (b.bidqs p) :=
  emptyOrAllSim_reals (b.bidqs p)

theorem emptyOrAllSim_askqs_noSims (b : Book) (p : ℤ) :
    emptyOrAllSim (b.noSims.askqs p) = emptyOrAllSim (b.askqs p) :=
  emptyOrAllSim_reals (b.askqs p)

theorem checkForBoChange_noSims (cfg : Cfg) (b : Book) (side : Side) (px : ℤ)
    (txtim venue uncrossed : ℕ) :
    b.noSims.checkForBoChange cfg side px txtim venue uncrossed =
      (b.checkForBoChange cfg side px txtim venue uncrossed).map fun r => (r.1.noSims, r.2) := by
  cases side with
  | buy =>
      simp only [Book.checkForBoChange, emptyOrAllSim_askqs_noSims]
      refine map_ite_congr (map_ite_congr rfl ?_) ?_
      · exact map_ite_congr (notifybbbosubs_noSims b ..) rfl
      · exact map_ite_congr (notifybbbosubs_noSims b ..) rfl
  | sel =>
      simp only [Book.checkForBoChange, emptyOrAllSim_bidqs_noSims]
      refine map_ite_congr (map_ite_congr rfl ?_) ?_
      · exact map_ite_congr (notifybbbosubs_noSims b ..) rfl
      · exact map_ite_congr (notifybbbosubs_noSims b ..) rfl

theorem adjust_noSims (cfg : Cfg) (b : Book) (side : Side) (px : ℤ) (txtim mkt : ℕ) :
    b.noSims.adjust cfg side px txtim mkt =
      (b.adjust cfg side px txtim mkt).map fun r => (r.1.noSims, r.2) := by
  cases side with
  | buy =>
      simp only [Book.adjust, emptyOrAllSim_bidqs_noSims]
      exact map_ite_congr (notifybbbosubs_noSims b ..) rfl
  | sel =>
      simp only [Book.adjust, emptyOrAllSim_askqs_noSims]
      exact map_ite_congr (notifybbbosubs_noSims b ..) rfl

/-- The queues after a sweep that is only made under a condition. -/
theorem sweep_or_stay {cfg : Cfg} {contra : Side} {d : ℤ} {stop : ℤ → Bool} {tim k : ℕ} {p : ℤ}
    {qs qs' : ℤ → List Order} {n : List Note} {c : ℕ} {P : Prop} [Decidable P]
    (h : (if P then sweep cfg contra d stop tim k p qs else some (qs, [], 0)) =
      some (qs', n, c)) :
    (∀ r, HasReal qs' r → HasReal qs r) ∧ (c = 0 → ∀ r, reals (qs' r) = reals (qs r)) ∧
      (cfg.doCrossCheck = true → c = 0) ∧
      ∃ n', (if P then sweep cfg contra d stop tim k p (reals ∘ qs)
        else some (reals ∘ qs, [], 0)) = some (reals ∘ qs', n', c) := by
  split at h
  next hcross =>
    obtain ⟨hsub, hsame, hcount⟩ := sweep_keeps h
    obtain ⟨n', hn'⟩ := sweep_reals h
    exact ⟨hsub, hsame, hcount, n', (if_pos hcross).trans hn'⟩
  next hcross =>
    cases h
    exact ⟨fun _ hr => hr, fun _ _ => rfl, fun _ => rfl, [], if_neg hcross⟩

/-- The contra queues after the sweep of `add`, and the book of it. -/
theorem fillStraySimOrders_sweep {cfg : Cfg} {b b' : Book} {side : Side} {px : ℤ} {txtim : ℕ}
    {n : List Note} {c : ℕ} (h : b.fillStraySimOrders cfg side px txtim = some (b', n, c)) :
    ∃ qs, b' = { b.setQs side.other qs with numCrossRecover := b.numCrossRecover + c } ∧
      (∀ r, HasReal qs r → HasReal (b.qs side.other) r) ∧
      (c = 0 → ∀ r, reals (qs r) = reals (b.qs side.other r)) ∧
      (cfg.doCrossCheck = true → c = 0) ∧
      ∃ n', b.noSims.fillStraySimOrders cfg side px txtim = some (b'.noSims, n', c) := by
  unfold Book.fillStraySimOrders at h
  obtain ⟨⟨qs, n', c'⟩, hswept, heq⟩ := Option.map_eq_some_iff.mp h
  cases heq
  refine ⟨qs, rfl, ?_⟩
  cases side with
  | buy =>
      obtain ⟨hsub, hsame, hcount, n'', hn''⟩ := sweep_or_stay hswept
      exact ⟨hsub, hsame, hcount, n'', Option.map_eq_some_iff.mpr ⟨_, hn'', rfl⟩⟩
  | sel =>
      obtain ⟨hsub, hsame, hcount, n'', hn''⟩ := sweep_or_stay hswept
      exact ⟨hsub, hsame, hcount, n'', Option.map_eq_some_iff.mpr ⟨_, hn'', rfl⟩⟩

theorem append_noSims_of_real {b b' : Book} {a : AddArgs} (hid : isSim a.id = false)
    (h : b.append a = some b') : b.noSims.append a = some b'.noSims := by
  obtain ⟨o, ho, rfl⟩ := Option.map_eq_some_iff.mp h
  have hreal : o.isSim = false := by
    rw [newOrder_eq ho]
    exact hid
  refine Option.map_eq_some_iff.mpr ⟨o, ho, ?_⟩
  rw [setQ_noSims, reals_append, reals_cons_of_real hreal, qs_noSims]
  rfl

/-- A queue that keeps its real orders is the same queue without ours. -/
theorem setQ_noSims_of_reals_eq {b : Book} {side : Side} {px : ℤ} {q : List Order}
    (h : reals q = reals (b.qs side px)) : (b.setQ side px q).noSims = b.noSims := by
  have hself : b.noSims.qs side px = reals q := by
    rw [h, qs_noSims]
    rfl
  rw [setQ_noSims, Book.setQ, ← hself, Function.update_eq_self]
  cases side <;> rfl

theorem append_noSims_of_sim {b b' : Book} {a : AddArgs} (hid : isSim a.id = true)
    (h : b.append a = some b') : b'.noSims = b.noSims := by
  rw [append_eq h]
  apply setQ_noSims_of_reals_eq
  rw [reals_append, reals_cons_of_sim (show a.order.isSim = true from hid), reals_nil,
    List.append_nil]

/-! ### `mod` on a queue -/

theorem find?_reals {id : LongId} (hid : isSim id = false) (q : List Order) :
    (reals q).find? (fun o => o.id == id) = q.find? fun o => o.id == id := by
  unfold reals
  rw [List.find?_filter]
  congr 1
  funext o
  by_cases ho : o.id = id
  · simp [Order.isSim, ho, hid]
  · simp [ho]

theorem doExec_reals {q q' : List Order} {a : ModArgs} {n : List Note}
    (h : doExec q a = some (q', n)) : reals q' = reals q := by
  obtain ⟨rfl, -⟩ | ⟨l, hfill, rfl⟩ := doExec_cases h
  · rfl
  · have hrev : ∀ l : List Order, reals l.reverse = (reals l).reverse :=
      fun l => List.filter_reverse ..
    have hahead : reals l = reals (q.takeWhile Order.isSim).reverse := fill_reals hfill
    conv_rhs =>
      rw [← List.takeWhile_append_dropWhile (p := Order.isSim) (l := q), reals_append]
    rw [reals_append, hrev, hahead, hrev, List.reverse_reverse]

/-- None of our orders is ahead of the first real one, so an execution changes nothing. -/
theorem doExec_of_reals (q : List Order) (a : ModArgs) :
    doExec (reals q) a = some (reals q, []) := by
  have hahead : (reals q).takeWhile Order.isSim = [] := by
    rw [List.takeWhile_eq_nil_iff]
    intro hlen
    have hmem := mem_reals.mp ((reals q).get_mem ⟨0, hlen⟩)
    simpa using hmem.2
  unfold doExec
  rw [hahead]
  simp

/-- The kind of an order is read off its id, which stays when its size changes. -/
theorem reals_resize (q : List Order) (o : Order) (sz : ℤ) :
    reals (q.map fun x => if x.id = o.id then { o with sz := sz } else x) =
      (reals q).map fun x => if x.id = o.id then { o with sz := sz } else x := by
  have hkind : ((fun o : Order => !o.isSim) ∘ fun x : Order =>
      if x.id = o.id then { o with sz := sz } else x) = fun o : Order => !o.isSim := by
    funext x
    by_cases hx : x.id = o.id
    · simp [Order.isSim, hx]
    · simp [hx]
  simp only [reals, List.filter_map, hkind]

theorem doCanc_reals {q q' : List Order} {o : Order} {a : ModArgs} {n : List Note}
    (h : doCanc q o a = some (q', n)) : doCanc (reals q) o a = some (reals q', n) := by
  obtain ⟨left, hcanc, hleft⟩ := doCanc_cases h
  refine Option.map_eq_some_iff.mpr ⟨(left, n), hcanc, ?_⟩
  obtain ⟨-, rfl, rfl⟩ | ⟨-, rfl, rfl⟩ := hleft
  · simp only [reals, List.filter_filter, Bool.and_comm]
  · rw [reals_resize]

/-- The cancel of one of our orders leaves the real ones. -/
theorem doCanc_reals_of_sim {q q' : List Order} {o : Order} {a : ModArgs} {n : List Note}
    (ho : o.isSim = true) (h : doCanc q o a = some (q', n)) : reals q' = reals q := by
  have hne : ∀ x ∈ reals q, x.id ≠ o.id := by
    intro x hx hid
    have hreal := (mem_reals.mp hx).2
    rw [Order.isSim, hid] at hreal
    rw [Order.isSim, hreal] at ho
    cases ho
  obtain ⟨left, -, ⟨-, -, hq⟩ | ⟨-, -, hq⟩⟩ := doCanc_cases (doCanc_reals h)
  · rw [hq]
    exact List.filter_eq_self.mpr fun x hx => by simpa using hne x hx
  · rw [hq]
    conv_rhs => rw [← List.map_id (reals q)]
    exact List.map_congr_left fun x hx => if_neg (hne x hx)

theorem modQ_reals {q q' : List Order} {o : Order} {a : ModArgs} {n : List Note}
    (h : modQ q o a = some (q', n)) : ∃ n', modQ (reals q) o a = some (reals q', n') := by
  unfold modQ at h ⊢
  split at h
  · split at h
    next hok =>
      refine ⟨[], ?_⟩
      rw [if_pos hok, doExec_reals h]
      exact doExec_of_reals q a
    · cases h
  · exact ⟨n, doCanc_reals h⟩
  · exact ⟨n, doCanc_reals h⟩
  · cases h
  · cases h
    exact ⟨[], rfl⟩

theorem modQ_reals_of_sim {q q' : List Order} {o : Order} {a : ModArgs} {n : List Note}
    (ho : o.isSim = true) (hid : o.id = a.id) (h : modQ q o a = some (q', n)) :
    reals q' = reals q := by
  obtain ⟨-, hreal, -⟩ | ⟨-, hcanc⟩ | ⟨rfl, -⟩ := modQ_cases h
  · rw [Order.isSim, hid, hreal] at ho
    cases ho
  · exact doCanc_reals_of_sim ho hcanc
  · rfl

/-! ### Calls -/

/-- A call that is not about one of our orders. -/
def isRealCall : Call → Bool
  | .add _ a => !isSim a.id
  | .mod a => !isSim a.id
  | .clear => true

theorem add_noSims {cfg : Cfg} {currtim : ℕ} {b b' : Book} {a : AddArgs} {n : List Note}
    (hid : isSim a.id = false) (h : b.add cfg currtim a = some (b', n)) :
    ∃ n', b.noSims.add cfg currtim a = some (b'.noSims, n') := by
  unfold Book.add at h ⊢
  simp only [hid, Bool.false_eq_true, false_and, if_false] at h ⊢
  split at h
  next hpx =>
    cases h
    exact ⟨[], if_pos hpx⟩
  next hpx =>
    rw [if_neg hpx]
    split at h
    · cases h
    next hsz =>
      rw [if_neg hsz]
      obtain ⟨⟨b₁, n₁, c⟩, hsweep, h⟩ := Option.bind_eq_some_iff.mp h
      obtain ⟨⟨b₂, n₂⟩, hbo, h⟩ := Option.bind_eq_some_iff.mp h
      obtain ⟨b₃, happ, heq⟩ := Option.map_eq_some_iff.mp h
      cases heq
      obtain ⟨-, -, -, -, -, n₁', hsweep'⟩ := fillStraySimOrders_sweep hsweep
      refine ⟨n₁' ++ n₂, ?_⟩
      rw [hsweep', Option.bind_some, checkForBoChange_noSims, hbo, Option.map_some,
        Option.bind_some, append_noSims_of_real hid happ, Option.map_some]

theorem add_noSims_of_sim {cfg : Cfg} {currtim : ℕ} {b b' : Book} {a : AddArgs} {n : List Note}
    (hid : isSim a.id = true) (h : b.add cfg currtim a = some (b', n)) : b'.noSims = b.noSims := by
  cases add_cases h with
  | offLadder _ => rfl
  | arrives _ _ _ _ => rfl
  | rests _ _ _ happ => exact append_noSims_of_sim hid happ
  | real hreal _ _ _ _ =>
      rw [hid] at hreal
      cases hreal

theorem mod_noSims {cfg : Cfg} {b b' : Book} {a : ModArgs} {n : List Note}
    (hid : isSim a.id = false) (h : b.mod cfg a = some (b', n)) :
    ∃ n', b.noSims.mod cfg a = some (b'.noSims, n') := by
  unfold Book.mod at h ⊢
  split at h
  · cases h
  next hargs =>
    rw [if_neg hargs]
    split at h
    next hpx =>
      cases h
      exact ⟨[], if_pos hpx⟩
    next hpx =>
      rw [if_neg hpx]
      split at h
      · cases h
      next hsender =>
        rw [if_neg hsender]
        dsimp only at h ⊢
        rw [qs_noSims, Function.comp_apply, find?_reals hid]
        rcases hf : (b.qs a.side a.px).find? (fun o => o.id == a.id) with _ | o
        · rw [hf] at h
          obtain ⟨n', hn, heq⟩ := Option.map_eq_some_iff.mp h
          cases heq
          refine ⟨n, ?_⟩
          rw [hf]
          exact Option.map_eq_some_iff.mpr ⟨n, hn, rfl⟩
        · rw [hf] at h
          obtain ⟨⟨q, nq⟩, hq, h⟩ := Option.bind_eq_some_iff.mp h
          obtain ⟨nq', hq'⟩ := modQ_reals hq
          simp only [hid, Bool.false_eq_true, if_false] at h
          obtain ⟨⟨b₁, n₁⟩, hadj, heq⟩ := Option.map_eq_some_iff.mp h
          cases heq
          refine ⟨nq' ++ n₁, ?_⟩
          rw [hf]
          simp only [hq', Option.bind_some, hid, Bool.false_eq_true, if_false]
          rw [← setQ_noSims, adjust_noSims, hadj]
          rfl

theorem mod_noSims_of_sim {cfg : Cfg} {b b' : Book} {a : ModArgs} {n : List Note}
    (hid : isSim a.id = true) (h : b.mod cfg a = some (b', n)) : b'.noSims = b.noSims := by
  cases mod_cases h with
  | offLadder _ => rfl
  | missed _ _ _ => rfl
  | sim _ _ hfound hq =>
      have hsim := (isSim_of_found hfound).trans hid
      exact setQ_noSims_of_reals_eq (modQ_reals_of_sim hsim (id_of_found hfound) hq)
  | real hreal _ _ _ _ =>
      rw [hid] at hreal
      cases hreal

theorem mapM_isSome_iff {α β : Type*} {f : α → Option β} {l : List α} :
    (l.mapM f).isSome = true ↔ ∀ x ∈ l, (f x).isSome = true := by
  induction l with
  | nil => simp
  | cons x l ih =>
      rw [List.mapM_cons, List.forall_mem_cons, ← ih]
      rcases hx : f x with _ | y
      · simp
      · rcases hl : l.mapM f with _ | ys
        · simp
        · simp

theorem cancNotifyAll_isSome {q : List Order} :
    (cancNotifyAll q).isSome = true ↔ ∀ o ∈ q, (o.cancNotify 0 .cancd).isSome = true := by
  simp only [cancNotifyAll, Option.isSome_map, mapM_isSome_iff, List.mem_insertionSort]

/-- `clear` cancels no more on the book without our orders. -/
theorem clear_noSims {cfg : Cfg} {b b' : Book} {n : List Note}
    (h : b.clear cfg = some (b', n)) : ∃ n', b.noSims.clear cfg = some (b'.noSims, n') := by
  have hreals : ∀ {levels : List ℤ} {qs : ℤ → List Order} {notes : List (List Note)},
      levels.mapM (fun p => cancNotifyAll (qs p)) = some notes →
      ∃ notes', levels.mapM (fun p => cancNotifyAll ((reals ∘ qs) p)) = some notes' := by
    intro levels qs notes hq
    have hall := mapM_isSome_iff.mp (Option.isSome_iff_exists.mpr ⟨notes, hq⟩)
    apply Option.isSome_iff_exists.mp
    refine mapM_isSome_iff.mpr fun p hp => cancNotifyAll_isSome.mpr fun o ho => ?_
    exact cancNotifyAll_isSome.mp (hall p hp) o (mem_reals.mp ho).1
  obtain ⟨bids, hbids, h⟩ := Option.bind_eq_some_iff.mp h
  obtain ⟨asks, hasks, heq⟩ := Option.map_eq_some_iff.mp h
  cases heq
  obtain ⟨bids', hbids'⟩ := hreals hbids
  obtain ⟨asks', hasks'⟩ := hreals hasks
  refine ⟨.clear :: (bids'.flatten ++ asks'.flatten), ?_⟩
  refine Option.bind_eq_some_iff.mpr ⟨bids', hbids', ?_⟩
  exact Option.map_eq_some_iff.mpr ⟨asks', hasks', rfl⟩

/-- **Our orders do not interfere.**  A call on a real order does on the book without ours what
    it does on the book, and a call on one of ours does nothing there. -/
theorem step_noSims {cfg : Cfg} {b b' : Book} {c : Call} {n : List Note}
    (h : step cfg b c = some (b', n)) :
    if isRealCall c then ∃ n', step cfg b.noSims c = some (b'.noSims, n')
    else b'.noSims = b.noSims := by
  cases c with
  | add currtim a =>
      rcases hid : isSim a.id with _ | _
      · simpa [isRealCall, hid, step] using add_noSims hid h
      · simpa [isRealCall, hid, step] using add_noSims_of_sim hid h
  | mod a =>
      rcases hid : isSim a.id with _ | _
      · simpa [isRealCall, hid, step] using mod_noSims hid h
      · simpa [isRealCall, hid, step] using mod_noSims_of_sim hid h
  | clear => simpa [isRealCall, step] using clear_noSims h

/-- The calls on real orders alone run on the book without ours. -/
theorem run_noSims {cfg : Cfg} {cs : List Call} {b : Book} {out : List Note}
    (hrun : run (step cfg) (Book.new cfg) cs = some (b, out)) :
    ∃ out', run (step cfg) (Book.new cfg) (cs.filter isRealCall) = some (b.noSims, out') := by
  refine run_invariant (I := fun cs _ b =>
    ∃ out', run (step cfg) (Book.new cfg) (cs.filter isRealCall) = some (b.noSims, out'))
    ⟨[], rfl⟩ ?_ hrun
  rintro past emitted b c b' n ⟨out', hrun'⟩ hs
  have hproj := step_noSims hs
  rw [List.filter_append]
  rcases hreal : isRealCall c with _ | _
  · rw [hreal, if_neg Bool.false_ne_true] at hproj
    refine ⟨out', ?_⟩
    rw [List.filter_cons_of_neg (by simp [hreal]), List.filter_nil, List.append_nil, hproj]
    exact hrun'
  · rw [hreal, if_pos rfl] at hproj
    obtain ⟨n', hn'⟩ := hproj
    refine ⟨out' ++ n', ?_⟩
    rw [List.filter_cons_of_pos hreal, List.filter_nil]
    exact run_concat.mpr ⟨b.noSims, out', n', hrun', hn', rfl⟩

end KasparHft.OB
