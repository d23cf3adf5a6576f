import KasparHft.OrderBookBest

/-!
# The exchange's orders in simulation

What each call does to the orders of the exchange when the book simulates
(`do_cross_check`): an add appends one, a cancel removes or shrinks one, an execution and
every call on one of our orders changes none.  `resting` lists, for each side and price, the
ids and sizes of these orders from head to tail.
-/

namespace KasparHft.OB

open Ladder

/-- The ids and sizes of the exchange's orders at a side and price. -/
def Book.resting (b : Book) (l : Side × ℤ) : List (LongId × ℤ) :=
  (reals (b.qs l.1 l.2)).map fun o => (o.id, o.sz)

/-! ### What `resting` depends on -/

theorem resting_congr_qs {b b' : Book} (h : ∀ side p, reals (b'.qs side p) = reals (b.qs side p)) :
    b'.resting = b.resting := by
  funext l
  unfold Book.resting
  rw [h]

theorem resting_noSims (b : Book) : b.noSims.resting = b.resting := by
  apply resting_congr_qs
  intro side p
  rw [qs_noSims, Function.comp_apply]
  unfold reals
  rw [List.filter_filter]
  simp

theorem resting_congr {b b' : Book} (h : b'.noSims = b.noSims) : b'.resting = b.resting := by
  rw [← resting_noSims b', h, resting_noSims]

theorem resting_setQ (b : Book) (side : Side) (px : ℤ) (q : List Order) :
    (b.setQ side px q).resting =
      Function.update b.resting (side, px) ((reals q).map fun o => (o.id, o.sz)) := by
  have hqs : ∀ side', (b.setQ side px q).qs side' =
      if side' = side then Function.update (b.qs side) px q else b.qs side' := by
    intro side'
    cases side <;> cases side' <;> rfl
  funext l
  obtain ⟨side', p⟩ := l
  unfold Book.resting
  dsimp only
  rw [hqs]
  by_cases hside : side' = side
  · subst hside
    rw [if_pos rfl]
    by_cases hp : p = px
    · subst hp
      rw [Function.update_self, Function.update_self]
    · rw [Function.update_of_ne hp, Function.update_of_ne]
      intro heq
      exact hp (congrArg Prod.snd heq)
  · rw [if_neg hside, Function.update_of_ne]
    intro heq
    exact hside (congrArg Prod.fst heq)

/-! ### `add` -/

theorem checkForBoChange_qs {cfg : Cfg} {b b' : Book} {side : Side} {px : ℤ}
    {txtim venue c : ℕ} {n : List Note}
    (h : b.checkForBoChange cfg side px txtim venue c = some (b', n)) (side' : Side) :
    b'.qs side' = b.qs side' := by
  have hqs : b'.bidqs = b.bidqs ∧ b'.askqs = b.askqs := by
    cases side with
    | buy => exact ⟨(checkForBoChange_buy h).1, (checkForBoChange_buy h).2.1⟩
    | sel => exact ⟨(checkForBoChange_sel h).1, (checkForBoChange_sel h).2.1⟩
  cases side' with
  | buy => exact hqs.1
  | sel => exact hqs.2

/-- **An add appends the order** to its queue. -/
theorem add_resting {cfg : Cfg} {currtim : ℕ} {b b' : Book} {a : AddArgs} {n : List Note}
    (hsimul : cfg.doCrossCheck = true) (hid : isSim a.id = false) (hpx : a.px < cfg.maxprice)
    (h : b.add cfg currtim a = some (b', n)) :
    b'.resting =
      Function.update b.resting (a.side, a.px)
        (b.resting (a.side, a.px) ++ [(a.id, a.sz)]) := by
  obtain ⟨b₁, n₁, c, b₂, n₂, hsweep, hbo, rfl⟩ := add_real hid hpx h
  obtain ⟨qs, rfl, -, hsame, hcount, -⟩ := fillStraySimOrders_sweep hsweep
  have hqs := hsame (hcount hsimul)
  have hkept : b₂.resting = b.resting := by
    apply resting_congr_qs
    intro side p
    rw [checkForBoChange_qs hbo]
    by_cases hside : side = a.side.other
    · subst hside
      rw [← hqs p]
      cases a.side <;> rfl
    · revert hside
      cases a.side <;> cases side <;> intro hside <;> first | rfl | exact absurd rfl hside
  have hreal : a.order.isSim = false := hid
  rw [resting_setQ, hkept, reals_append, reals_cons_of_real hreal, reals_nil, List.map_append]
  congr 1
  have hat := congrFun hkept (a.side, a.px)
  unfold Book.resting at hat
  rw [hat]
  rfl

/-! ### `mod` -/

theorem adjust_qs {cfg : Cfg} {b b' : Book} {side : Side} {px : ℤ} {txtim mkt : ℕ}
    {n : List Note} (h : b.adjust cfg side px txtim mkt = some (b', n)) (side' : Side) :
    b'.qs side' = b.qs side' := by
  have hqs : b'.bidqs = b.bidqs ∧ b'.askqs = b.askqs := by
    cases side with
    | buy =>
        obtain ⟨hbids, hasks, -, -⟩ := notify_keeps h
        exact ⟨hbids, hasks⟩
    | sel =>
        obtain ⟨hbids, hasks, -, -⟩ := notify_keeps h
        exact ⟨hbids, hasks⟩
  cases side' with
  | buy => exact hqs.1
  | sel => exact hqs.2

/-- A `mod` of a real order finds it or changes nothing. -/
theorem mod_real {cfg : Cfg} {b b' : Book} {a : ModArgs} {n : List Note}
    (hid : isSim a.id = false) (hpx : a.px < cfg.maxprice) (h : b.mod cfg a = some (b', n)) :
    ((b.qs a.side a.px).find? (fun o => o.id == a.id) = none ∧ b' = b) ∨
      ∃ o q nq, (b.qs a.side a.px).find? (fun o => o.id == a.id) = some o ∧
        modQ (b.qs a.side a.px) o a = some (q, nq) ∧
        b'.resting = (b.setQ a.side a.px q).resting := by
  cases mod_cases h with
  | offLadder hoff => exact absurd hpx (not_lt.mpr hoff)
  | missed _ hnone _ => exact .inl ⟨hnone, rfl⟩
  | sim hsim _ _ _ =>
      rw [hid] at hsim
      cases hsim
  | real _ _ hfound hq hadj =>
      refine .inr ⟨_, _, _, hfound, hq, resting_congr_qs fun side p => ?_⟩
      rw [adjust_qs hadj]

/-- **An execution changes no order of the exchange.** -/
theorem exec_resting {cfg : Cfg} {b b' : Book} {a : ModArgs} {n : List Note}
    (hid : isSim a.id = false) (hmod : a.modtyp = .exec) (h : b.mod cfg a = some (b', n)) :
    b'.resting = b.resting := by
  by_cases hpx : a.px < cfg.maxprice
  · rcases mod_real hid hpx h with ⟨-, rfl⟩ | ⟨o, q, nq, -, hq, hrest⟩
    · rfl
    · have hreals : reals q = reals (b.qs a.side a.px) := by
        obtain ⟨-, -, hexec⟩ | ⟨hcanc | hcanc, -⟩ | ⟨rfl, -⟩ := modQ_cases hq
        · exact doExec_reals hexec
        · cases hmod.symm.trans hcanc
        · cases hmod.symm.trans hcanc
        · rfl
      rw [hrest, resting_setQ, hreals]
      exact Function.update_eq_self ..
  · cases mod_cases h with
    | offLadder _ => rfl
    | missed hlt _ _ => exact absurd hlt hpx
    | sim _ hlt _ _ => exact absurd hlt hpx
    | real _ hlt _ _ _ => exact absurd hlt hpx

/-- **A delete removes the order.** -/
theorem cancd_resting {cfg : Cfg} {b b' : Book} {a : ModArgs} {n : List Note}
    (hid : isSim a.id = false) (hpx : a.px < cfg.maxprice) (hmod : a.modtyp = .cancd)
    (h : b.mod cfg a = some (b', n)) :
    b'.resting =
      Function.update b.resting (a.side, a.px)
        ((b.resting (a.side, a.px)).filter fun x => x.1 ≠ a.id) := by
  have hview : ∀ q : List Order,
      (reals (q.filter fun o => o.id != a.id)).map (fun o => (o.id, o.sz)) =
      ((reals q).map fun o => (o.id, o.sz)).filter fun x => x.1 ≠ a.id := by
    intro q
    unfold reals
    rw [List.filter_map, List.filter_filter, List.filter_filter]
    congr 1
    apply List.filter_congr
    intro o _
    simp [bne, Bool.and_comm, Bool.beq_eq_decide_eq]
  rcases mod_real hid hpx h with ⟨hnone, rfl⟩ | ⟨o, q, nq, hf, hq, hrest⟩
  · -- not found: nothing to remove
    have hself : (b'.qs a.side a.px).filter (fun o => o.id != a.id) = b'.qs a.side a.px := by
      refine List.filter_eq_self.mpr fun o ho => ?_
      have := List.find?_eq_none.mp hnone o ho
      simpa [bne] using this
    have hv := hview (b'.qs a.side a.px)
    rw [hself] at hv
    unfold Book.resting
    rw [← hv]
    exact (Function.update_eq_self ..).symm
  · simp only [modQ, hmod] at hq
    obtain ⟨left, -, ⟨-, -, rfl⟩ | ⟨hcanc, -⟩⟩ := doCanc_cases hq
    · rw [hrest, resting_setQ, id_of_found hf, hview]
      exact rfl
    · cases hmod.symm.trans hcanc

/-- **A reduction changes the size in place.** -/
theorem canc_resting {cfg : Cfg} {b b' : Book} {a : ModArgs} {n : List Note}
    (hid : isSim a.id = false) (hpx : a.px < cfg.maxprice) (hmod : a.modtyp = .canc)
    (h : b.mod cfg a = some (b', n)) :
    b'.resting =
      Function.update b.resting (a.side, a.px)
        ((b.resting (a.side, a.px)).map fun x => if x.1 = a.id then (x.1, a.dispSz) else x) := by
  rcases mod_real hid hpx h with ⟨hnone, rfl⟩ | ⟨o, q, nq, hf, hq, hrest⟩
  · -- not found: nothing to change
    have hself : (b'.resting (a.side, a.px)).map
        (fun x => if x.1 = a.id then (x.1, a.dispSz) else x) = b'.resting (a.side, a.px) := by
      conv_rhs => rw [← List.map_id (b'.resting (a.side, a.px))]
      refine List.map_congr_left fun x hx => if_neg ?_
      obtain ⟨o, ho, rfl⟩ := List.mem_map.mp hx
      have := List.find?_eq_none.mp hnone o (mem_reals.mp ho).1
      simpa using this
    rw [hself]
    exact (Function.update_eq_self ..).symm
  · have ho := id_of_found hf
    simp only [modQ, hmod] at hq
    obtain ⟨left, -, ⟨hcancd, -⟩ | ⟨-, -, rfl⟩⟩ := doCanc_cases hq
    · cases hmod.symm.trans hcancd
    rw [hrest, resting_setQ]
    congr 1
    unfold Book.resting
    dsimp only
    rw [reals_resize, List.map_map, List.map_map]
    apply List.map_congr_left
    intro x _
    by_cases hx : x.id = o.id
    · simp [hx, ho]
    · simp [hx, ho ▸ hx]

/-! ### `clear` -/

theorem clear_resting {cfg : Cfg} {b b' : Book} {n : List Note}
    (h : b.clear cfg = some (b', n)) : b'.resting = fun _ => [] := by
  obtain ⟨bids, -, h⟩ := Option.bind_eq_some_iff.mp h
  obtain ⟨asks, -, heq⟩ := Option.map_eq_some_iff.mp h
  cases heq
  funext l
  obtain ⟨side, p⟩ := l
  cases side <;> rfl

end KasparHft.OB
