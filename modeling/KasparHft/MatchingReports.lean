import KasparHft.MatchingEngineCalls

/-!
# The reports of the matching engine

What the events of the calls tell.  Each reader of the events is a fold over them: what is left of
each order (`reported`), the top of the book (`shown`) and the orders in the sequence in which they
were acknowledged (`acked`); `Tape` is about the trades.  Each follows the book from call to call.
-/

namespace KasparHft.MatchingEngine

open AssocMap Machine PriceTime

variable {H : Type}

/-! ### What is left of an order -/

/-- What a report says is left of an order. -/
def Event.report (v : ℕ → ℕ) : Event H → ℕ → ℕ
  | .ack _ orderId restingQty => Function.update v orderId restingQty
  | .fill _ orderId _ _ _ leavesQty _ _ => Function.update v orderId leavesQty
  | .canceled _ orderId _ => Function.update v orderId 0
  | .replaced _ orderId _ _ => Function.update v orderId 0
  | .rejected .. => v
  | .bbo .. => v

def reported (v : ℕ → ℕ) (events : List (Event H)) : ℕ → ℕ := events.foldl Event.report v

@[simp] theorem reported_nil (v : ℕ → ℕ) : reported v ([] : List (Event H)) = v := rfl

@[simp] theorem reported_cons (v : ℕ → ℕ) (ev : Event H) (evs : List (Event H)) :
    reported v (ev :: evs) = reported (ev.report v) evs := rfl

theorem reported_append (v : ℕ → ℕ) (evs evs' : List (Event H)) :
    reported v (evs ++ evs') = reported (reported v evs) evs' := List.foldl_append

theorem reported_bboNote (v : ℕ → ℕ) (x y : Option (ℕ × ℕ) × Option (ℕ × ℕ)) :
    reported v (bboNote x y : List (Event H)) = v := by
  unfold bboNote
  split <;> rfl

/-- The quantity that rests under an id. -/
def held (ms : List (Order H)) (orderId : ℕ) : ℕ := quantity (ms.filter fun m => m.id = orderId)

def Book.resting (b : Book H) (orderId : ℕ) : ℕ := held (b.bids ++ b.asks) orderId

section Held

variable {ms ns : List (Order H)} {m : Order H} {orderId : ℕ}

@[simp] theorem held_nil : held ([] : List (Order H)) orderId = 0 := rfl

theorem held_cons_self : held (m :: ms) m.id = m.qty + held ms m.id := by
  unfold held
  rw [List.filter_cons_of_pos (by simp), quantity_cons]

theorem held_cons_ne (h : m.id ≠ orderId) : held (m :: ms) orderId = held ms orderId := by
  unfold held
  rw [List.filter_cons_of_neg (by simpa using h)]

theorem held_append : held (ms ++ ns) orderId = held ms orderId + held ns orderId := by
  unfold held
  rw [List.filter_append, quantity_append]

theorem held_perm (h : ms.Perm ns) : held ms orderId = held ns orderId :=
  quantity_perm (h.filter _)

theorem held_eq_zero (h : ∀ m ∈ ms, m.id ≠ orderId) : held ms orderId = 0 := by
  have hnil : ms.filter (fun m => m.id = orderId) = [] :=
    List.filter_eq_nil_iff.mpr fun m hm => by simpa using h m hm
  unfold held
  rw [hnil, quantity_nil]

theorem Book.resting_of_sides (b : Book H) (side : Side) (orderId : ℕ) :
    b.resting orderId = held (b.of side) orderId + held (b.of side.other) orderId := by
  rw [Book.resting, held_perm (perm_of_sides b side), held_append]

end Held

section Fills

variable {suits : ℕ → Bool} {orderId : ℕ} {side : Side} {who : H} {ms : List (Order H)}

/-- A sweep that hits nothing leaves what was wanted. -/
theorem sweep_left_of_nil {want : ℕ} (h : (sweep suits ms want).1 = []) :
    (sweep suits ms want).2.2 = want := by
  have htaken : taken (sweep suits ms want).1 + (sweep suits ms want).2.2 = want :=
    (swept suits ms want).taken_add
  rwa [h, taken_nil, Nat.zero_add] at htaken

theorem sweep_kept_ids {want : ℕ} :
    (sweep suits ms want).2.1.map Maker.id ⊆ ms.map Maker.id := by
  have htags : (sweep suits ms want).2.1.map Maker.tag <:+ ms.map Maker.tag :=
    (swept suits ms want).tags
  rw [map_id_eq_tag, map_id_eq_tag]
  exact (htags.map _).subset

theorem fills_whole (want t : ℕ) (m : Order H) (hits : List (Hit ℕ ℕ H)) :
    fills orderId side who want t (Hit.whole m :: hits) =
      .fill m.owner m.id side.other m.price m.qty 0 orderId t ::
        .fill who orderId side m.price m.qty (want - m.qty) m.id t ::
          fills orderId side who (want - m.qty) (t + 1) hits := by
  simp only [fills, Hit.leaves, Hit.whole, Nat.sub_self]

/-- **The fills of a sweep** tell what is left of the queue and of the taker. -/
theorem reported_fills (hnodup : (ms.map Maker.id).Nodup) (hfresh : ∀ m ∈ ms, m.id ≠ orderId)
    {v : ℕ → ℕ} (hv : ∀ i ∈ ms.map Maker.id, v i = held ms i) (want t i : ℕ) :
    reported v (fills orderId side who want t (sweep suits ms want).1) i =
      if i = orderId then
        if (sweep suits ms want).1 = [] then v orderId else (sweep suits ms want).2.2
      else if i ∈ ms.map Maker.id then held (sweep suits ms want).2.1 i
      else v i := by
  induction ms generalizing v want t with
  | nil =>
      change v i = _
      split
      next hi =>
        rw [hi]
        exact (if_pos rfl).symm
      next => rfl
  | cons m ms ih =>
      have hstay : ∀ want', sweep suits (m :: ms) want' = ([], m :: ms, want') →
          reported v (fills orderId side who want' t (sweep suits (m :: ms) want').1) i =
            if i = orderId then
              if (sweep suits (m :: ms) want').1 = [] then v orderId
              else (sweep suits (m :: ms) want').2.2
            else if i ∈ (m :: ms).map Maker.id then held (sweep suits (m :: ms) want').2.1 i
            else v i := by
        intro want' hsweep
        rw [hsweep]
        change v i = _
        by_cases hi : i = orderId
        · rw [if_pos hi, if_pos rfl, hi]
        · rw [if_neg hi]
          split
          next hmem => exact hv i hmem
          next => rfl
      rcases Nat.eq_zero_or_pos want with rfl | hwant
      · exact hstay 0 (sweep_none _)
      cases hsuits : suits m.price with
      | false => exact hstay want (sweep_stop hsuits)
      | true =>
          obtain ⟨hm, hms⟩ := List.forall_mem_cons.mp hfresh
          rw [List.map_cons, List.nodup_cons] at hnodup
          obtain ⟨hnot, hnodup⟩ := hnodup
          have hrest : held ms m.id = 0 := held_eq_zero fun n hn heq =>
            hnot (heq ▸ List.mem_map_of_mem hn)
          rcases Nat.lt_or_ge want m.qty with hlt | hle
          · rw [sweep_part hsuits hwant hlt]
            simp only [fills, reported_cons, reported_nil, Event.report, Hit.leaves, Nat.sub_self]
            by_cases hi : i = orderId
            · rw [if_pos hi, if_neg (by simp), hi, Function.update_self]
            rw [if_neg hi, Function.update_of_ne hi]
            by_cases him : i = m.id
            · rw [him, Function.update_self, if_pos (by simp),
                held_cons_self (m := { m with qty := m.qty - want }), hrest, Nat.add_zero]
            · rw [Function.update_of_ne him]
              split
              next hmem =>
                rw [hv i hmem, held_cons_ne (Ne.symm him),
                  held_cons_ne (m := { m with qty := m.qty - want }) (Ne.symm him)]
              next => rfl
          · rw [sweep_whole hsuits hwant hle]
            dsimp only
            rw [fills_whole, reported_cons, reported_cons]
            simp only [Event.report]
            rw [ih hnodup hms (fun j hj => ?_)]
            · by_cases hi : i = orderId
              · rw [if_pos hi, if_pos hi, if_neg (List.cons_ne_nil _ _), Function.update_self]
                split
                next hnil => exact (sweep_left_of_nil hnil).symm
                next => rfl
              rw [if_neg hi, if_neg hi, Function.update_of_ne hi]
              by_cases him : i = m.id
              · rw [him, if_neg hnot, Function.update_self, if_pos (by simp)]
                refine (held_eq_zero fun n hn heq => hnot ?_).symm
                exact sweep_kept_ids (heq ▸ List.mem_map_of_mem (f := Maker.id) hn)
              · rw [Function.update_of_ne him, List.map_cons]
                by_cases hmem : i ∈ ms.map Maker.id
                · rw [if_pos hmem, if_pos (List.mem_cons_of_mem _ hmem)]
                · rw [if_neg hmem, if_neg fun h => (List.mem_cons.mp h).elim him hmem]
            · have hjm : j ≠ m.id := fun heq => hnot (heq ▸ hj)
              have hjo : j ≠ orderId := by
                obtain ⟨n, hn, rfl⟩ := List.mem_map.mp hj
                exact hms n hn
              rw [Function.update_of_ne hjo, Function.update_of_ne hjm,
                hv j (List.mem_cons_of_mem _ hj), held_cons_ne (Ne.symm hjm)]

end Fills

section Calls

variable {b : Book H} {side : Side} {orderId price qty : ℕ} {who : H}

theorem notMem_ids {ms : List (Order H)} {i : ℕ} (h : i ∉ ms.map Maker.id) :
    ∀ m ∈ ms, m.id ≠ i := fun _ hm heq => h (heq ▸ List.mem_map_of_mem hm)

theorem resting_eq_zero (hfresh : ∀ s, ∀ n ∈ b.of s, n.id ≠ orderId) : b.resting orderId = 0 := by
  rw [b.resting_of_sides .buy, held_eq_zero (hfresh _), held_eq_zero (hfresh _)]

/-- After the fills of a taker only the taker's own rest is not in the book. -/
theorem Book.Sound.reported_matched (h : b.Sound) (hfresh : ∀ s, ∀ n ∈ b.of s, n.id ≠ orderId)
    {i : ℕ} (hi : i ≠ orderId) :
    reported b.resting (fills orderId side who qty b.nextTradeId
      (sweep (suits side price) (b.of side.other) qty).1) i =
        (b.matched side price qty).resting i := by
  have hother : ∀ j ∈ (b.of side.other).map Maker.id, held (b.of side) j = 0 := by
    intro j hj
    obtain ⟨n, hn, rfl⟩ := List.mem_map.mp hj
    exact held_eq_zero fun m hm => h.apart side m hm n hn
  rw [reported_fills (h.nodup side.other) (hfresh side.other) (fun j hj => by
      rw [b.resting_of_sides side, hother j hj, Nat.zero_add]), if_neg hi,
    (b.matched side price qty).resting_of_sides side, Book.of_matched, Book.of_matched_other]
  split
  next hmem => rw [hother i hmem, Nat.zero_add]
  next hmem =>
    rw [b.resting_of_sides side, held_eq_zero (notMem_ids hmem),
      held_eq_zero (notMem_ids fun hkept => hmem (sweep_kept_ids hkept))]

theorem Book.Sound.reported_taker (h : b.Sound) (hfresh : ∀ s, ∀ n ∈ b.of s, n.id ≠ orderId)
    (hqty : 0 < qty) (hleft : (sweep (suits side price) (b.of side.other) qty).2.2 = 0) :
    reported b.resting (fills orderId side who qty b.nextTradeId
      (sweep (suits side price) (b.of side.other) qty).1) orderId = 0 := by
  have hother : ∀ j ∈ (b.of side.other).map Maker.id, held (b.of side) j = 0 := by
    intro j hj
    obtain ⟨n, hn, rfl⟩ := List.mem_map.mp hj
    exact held_eq_zero fun m hm => h.apart side m hm n hn
  rw [reported_fills (h.nodup side.other) (hfresh side.other) (fun j hj => by
      rw [b.resting_of_sides side, hother j hj, Nat.zero_add]), if_pos rfl, if_neg, hleft]
  intro hnil
  rw [sweep_left_of_nil hnil] at hleft
  omega

/-- **An order that enters** is reported as it is. -/
theorem Book.Sound.reported_enter (h : b.Sound) (hfresh : ∀ s, ∀ n ∈ b.of s, n.id ≠ orderId)
    (hqty : 0 < qty) :
    reported b.resting (b.enter orderId side price qty who).2 =
      (b.enter orderId side price qty who).1.resting := by
  have hfreshMatched : ∀ s, ∀ n ∈ (b.matched side price qty).of s, n.id ≠ orderId := by
    intro s n hn
    obtain ⟨n', hn', hid, -⟩ := Book.exists_of_matched hn
    exact hid ▸ hfresh s n' hn'
  funext i
  by_cases hleft : (sweep (suits side price) (b.of side.other) qty).2.2 = 0
  · rw [Book.enter_filled hleft]
    by_cases hi : i = orderId
    · rw [hi, resting_eq_zero hfreshMatched, h.reported_taker hfresh hqty hleft]
    · exact h.reported_matched hfresh hi
  · rw [Book.enter_rests hleft, reported_append, reported_cons, reported_nil,
      Book.resting_of_sides _ side, Book.of_set, Book.of_set_other, held_perm (file_perm _ _ _)]
    simp only [Event.report]
    by_cases hi : i = orderId
    · subst hi
      have hside : held (b.of side) i = 0 := held_eq_zero (hfresh side)
      have hotherSide : held ((b.matched side price qty).of side.other) i = 0 :=
        held_eq_zero (hfreshMatched side.other)
      have hnew : held (⟨i, price, (sweep (suits side price) (b.of side.other) qty).2.2, who⟩ ::
          b.of side) i = (sweep (suits side price) (b.of side.other) qty).2.2 +
            held (b.of side) i := held_cons_self
      rw [Function.update_self, hnew, hside, hotherSide, Nat.add_zero]
    · rw [Function.update_of_ne hi, h.reported_matched hfresh hi,
        Book.resting_of_sides _ side, Book.of_matched, held_cons_ne]
      exact Ne.symm hi

theorem Book.Sound.resting_remove (h : b.Sound) {m : Order H}
    (hfind : b.find orderId = some (side, m)) :
    (b.remove side orderId).resting = Function.update b.resting orderId 0 := by
  funext i
  by_cases hi : i = orderId
  · rw [hi, Function.update_self, resting_eq_zero (h.fresh_of_remove hfind)]
  · rw [Function.update_of_ne hi, Book.resting_of_sides _ side, Book.resting_of_sides _ side,
      Book.remove, Book.of_set, Book.of_set_other]
    congr 1
    unfold held
    rw [List.filter_filter]
    refine congrArg _ (List.filter_congr fun n _ => ?_)
    by_cases hn : n.id = i
    · simp [hn, hi]
    · simp [hn]

/-- **Each call is reported as it is.** -/
theorem Book.Sound.reported_call (h : b.Sound) (c : Call H) :
    reported b.resting (b.call c).2 = (b.call c).1.resting := by
  cases c with
  | place orderId side price qty who =>
      change reported _ (b.place orderId side price qty who).2 =
        (b.place orderId side price qty who).1.resting
      unfold Book.place
      split
      next => rfl
      next hgood =>
        split
        next => rfl
        next hnone =>
          dsimp only
          rw [reported_append, reported_bboNote]
          exact h.reported_enter (Book.find_eq_none.mp (Option.not_isSome_iff_eq_none.mp hnone))
            (by omega)
  | cancel orderId who =>
      change reported _ (b.cancel orderId who).2 = (b.cancel orderId who).1.resting
      unfold Book.cancel
      split
      next => rfl
      next side m hfind =>
        dsimp only
        rw [reported_cons, reported_bboNote, h.resting_remove hfind]
        rfl
  | replace orderId newPrice newQty who =>
      change reported _ (b.replace orderId newPrice newQty who).2 =
        (b.replace orderId newPrice newQty who).1.resting
      unfold Book.replace
      split
      next => rfl
      next side m hfind =>
        split
        next => rfl
        next hgood =>
          dsimp only
          rw [reported_cons, reported_append, reported_bboNote, Event.report,
            ← h.resting_remove hfind]
          exact (h.remove side orderId).reported_enter (h.fresh_of_remove hfind) (by omega)

end Calls

/-! ### The top of the book -/

/-- What a report says the top of the book is. -/
def Event.show (top : Option (ℕ × ℕ) × Option (ℕ × ℕ)) :
    Event H → Option (ℕ × ℕ) × Option (ℕ × ℕ)
  | .bbo bid ask => (bid, ask)
  | _ => top

def shown (top : Option (ℕ × ℕ) × Option (ℕ × ℕ)) (events : List (Event H)) :
    Option (ℕ × ℕ) × Option (ℕ × ℕ) := events.foldl Event.show top

theorem shown_append (x : Option (ℕ × ℕ) × Option (ℕ × ℕ)) (evs evs' : List (Event H)) :
    shown x (evs ++ evs') = shown (shown x evs) evs' := List.foldl_append

/-- Only a change of the top is about the top. -/
theorem shown_of_filter {x : Option (ℕ × ℕ) × Option (ℕ × ℕ)} {evs : List (Event H)}
    (h : evs.filter (fun ev => !OrderBook.isBbo ev) = evs) : shown x evs = x := by
  rw [List.filter_eq_self] at h
  induction evs generalizing x with
  | nil => rfl
  | cons ev evs ih =>
      obtain ⟨hev, hevs⟩ := List.forall_mem_cons.mp h
      refine Eq.trans ?_ (ih hevs)
      cases ev with
      | bbo => cases hev
      | _ => rfl

theorem shown_bboNote (x y : Option (ℕ × ℕ) × Option (ℕ × ℕ)) :
    shown x (bboNote x y : List (Event H)) = y := by
  unfold bboNote
  split
  next h => exact h.symm
  next => rfl

theorem shown_call (b : Book H) (c : Call H) : shown b.bbo (b.call c).2 = (b.call c).1.bbo := by
  cases c with
  | place orderId side price qty who =>
      change shown _ (b.place orderId side price qty who).2 =
        (b.place orderId side price qty who).1.bbo
      unfold Book.place
      split
      next => rfl
      next =>
        split
        next => rfl
        next =>
          dsimp only
          rw [shown_append, shown_of_filter (filter_enter ..), shown_bboNote]
  | cancel orderId who =>
      change shown _ (b.cancel orderId who).2 = (b.cancel orderId who).1.bbo
      unfold Book.cancel
      split
      next => rfl
      next => exact shown_bboNote ..
  | replace orderId newPrice newQty who =>
      change shown _ (b.replace orderId newPrice newQty who).2 =
        (b.replace orderId newPrice newQty who).1.bbo
      unfold Book.replace
      split
      next => rfl
      next =>
        split
        next => rfl
        next =>
          refine (shown_append _ _ _).trans ?_
          refine (congrArg (fun x => shown x _) (shown_of_filter (filter_enter ..))).trans ?_
          exact shown_bboNote ..

/-! ### The sequence of the orders -/

/-- The orders in the sequence of their last acknowledgements. -/
def Event.ackIn (ids : List ℕ) : Event H → List ℕ
  | .ack _ orderId _ => ids.filter (· ≠ orderId) ++ [orderId]
  | _ => ids

def acked (ids : List ℕ) (events : List (Event H)) : List ℕ := events.foldl Event.ackIn ids

theorem acked_append (ids : List ℕ) (evs evs' : List (Event H)) :
    acked ids (evs ++ evs') = acked (acked ids evs) evs' := List.foldl_append

theorem acked_bboNote (ids : List ℕ) (x y : Option (ℕ × ℕ) × Option (ℕ × ℕ)) :
    acked ids (bboNote x y : List (Event H)) = ids := by
  unfold bboNote
  split <;> rfl

theorem acked_fills (ids : List ℕ) (orderId : ℕ) (side : Side) (who : H) (want t : ℕ)
    (hits : List (Hit ℕ ℕ H)) : acked ids (fills orderId side who want t hits) = ids := by
  induction hits generalizing want t with
  | nil => rfl
  | cons hit hits ih => exact ih _ _

/-- The orders of every level stand in this sequence. -/
def InTurn (ids : List ℕ) (b : Book H) : Prop :=
  ∀ side px, ((level (b.of side) px).map Maker.id).Sublist ids

section Turns

variable {b : Book H} {side : Side} {orderId price qty : ℕ} {who : H} {ids : List ℕ}

theorem InTurn.of_sublist {b' : Book H} (h : InTurn ids b)
    (hsub : ∀ side, ((b'.of side).map fun m => (m.id, m.price)).Sublist
      ((b.of side).map fun m => (m.id, m.price))) : InTurn ids b' := by
  intro side px
  have hlevel : ∀ ms : List (Order H), (level ms px).map Maker.id =
      ((ms.map fun m => (m.id, m.price)).filter fun p => p.2 = px).map Prod.fst := by
    intro ms
    rw [List.filter_map, List.map_map]
    rfl
  refine List.Sublist.trans ?_ (h side px)
  rw [hlevel, hlevel]
  exact ((hsub side).filter _).map _

theorem InTurn.remove (h : InTurn ids b) (side : Side) (orderId : ℕ) :
    InTurn ids (b.remove side orderId) := by
  refine h.of_sublist (forall_side side ?_ ?_)
  · rw [Book.remove, Book.of_set]
    exact List.filter_sublist.map _
  · rw [Book.remove, Book.of_set_other]

theorem InTurn.matched (h : InTurn ids b) : InTurn ids (b.matched side price qty) := by
  refine h.of_sublist (forall_side side ?_ ?_)
  · rw [Book.of_matched]
  · rw [Book.of_matched_other]
    have htags : (sweep (suits side price) (b.of side.other) qty).2.1.map Maker.tag <:+
        (b.of side.other).map Maker.tag := (swept _ _ _).tags
    have hpairs : ∀ ms : List (Order H), ms.map (fun m => (m.id, m.price)) =
        (ms.map Maker.tag).map fun t => (t.1, t.2.1) := fun ms => by
      rw [List.map_map]
      rfl
    rw [hpairs, hpairs]
    exact htags.sublist.map _

/-- **A newcomer is acknowledged last.** -/
theorem InTurn.enter (h : InTurn ids b) (side : Side) (price qty : ℕ) (who : H) (hb : b.Sound)
    (hfresh : ∀ s, ∀ n ∈ b.of s, n.id ≠ orderId) :
    InTurn (acked ids (b.enter orderId side price qty who).2)
      (b.enter orderId side price qty who).1 := by
  by_cases hleft : (sweep (suits side price) (b.of side.other) qty).2.2 = 0
  · rw [Book.enter_filled hleft]
    dsimp only
    rw [acked_fills]
    exact h.matched
  · rw [Book.enter_rests hleft]
    dsimp only
    rw [acked_append, acked_fills]
    change InTurn (ids.filter (· ≠ orderId) ++ [orderId]) _
    have hold : ∀ s px, ((level ((b.matched side price qty).of s) px).map Maker.id).Sublist
        (ids.filter (· ≠ orderId)) := by
      intro s px
      have hkept : ((level ((b.matched side price qty).of s) px).map Maker.id).filter
          (· ≠ orderId) = (level ((b.matched side price qty).of s) px).map Maker.id := by
        rw [List.filter_eq_self]
        intro i hi
        obtain ⟨n, hn, rfl⟩ := List.mem_map.mp hi
        obtain ⟨n', hn', hid, -⟩ := Book.exists_of_matched (mem_level.mp hn).1
        exact decide_eq_true (hid ▸ hfresh s n' hn')
      rw [← hkept]
      exact (h.matched s px).filter _
    refine forall_side side (fun px => ?_) fun px => ?_
    · rw [Book.of_set, level_file (hb.queued side) (better_priority side)]
      have hside := hold side px
      rw [Book.of_matched] at hside
      split
      next =>
        rw [List.map_append]
        exact hside.append (List.Sublist.refl _)
      next => exact hside.trans (List.sublist_append_left _ _)
    · rw [Book.of_set_other]
      exact (hold side.other px).trans (List.sublist_append_left _ _)

theorem InTurn.call (h : InTurn ids b) (hb : b.Sound) (c : Call H) :
    InTurn (acked ids (b.call c).2) (b.call c).1 := by
  cases c with
  | place orderId side price qty who =>
      change InTurn (acked ids (b.place orderId side price qty who).2)
        (b.place orderId side price qty who).1
      unfold Book.place
      split
      next => exact h
      next =>
        split
        next => exact h
        next hnone =>
          dsimp only
          rw [acked_append, acked_bboNote]
          exact h.enter side price qty who hb
            (Book.find_eq_none.mp (Option.not_isSome_iff_eq_none.mp hnone))
  | cancel orderId who =>
      change InTurn (acked ids (b.cancel orderId who).2) (b.cancel orderId who).1
      unfold Book.cancel
      split
      next => exact h
      next side m hfind =>
        have hnote : acked ids (.canceled m.owner orderId m.qty ::
            bboNote b.bbo (b.remove side orderId).bbo) = ids := acked_bboNote ids ..
        dsimp only
        rw [hnote]
        exact h.remove side orderId
  | replace orderId newPrice newQty who =>
      change InTurn (acked ids (b.replace orderId newPrice newQty who).2)
        (b.replace orderId newPrice newQty who).1
      unfold Book.replace
      split
      next => exact h
      next side m hfind =>
        split
        next => exact h
        next =>
          have hentered := (h.remove side orderId).enter side newPrice newQty m.owner
            (hb.remove side orderId) (hb.fresh_of_remove hfind)
          refine (congrArg (fun l => InTurn l _) ?_).mp hentered
          exact ((acked_append ids _ _).trans (acked_bboNote _ ..)).symm

end Turns

/-! ### The tape -/

/-- One trade, as both sides are told of it. -/
structure Trade (H : Type) where
  maker : H
  makerId : ℕ
  makerLeaves : ℕ
  taker : H
  takerId : ℕ
  takerLeaves : ℕ
  side : Side
  price : ℕ
  qty : ℕ
  tradeId : ℕ
deriving DecidableEq, Repr

def Trade.reports (t : Trade H) : List (Event H) :=
  [.fill t.maker t.makerId t.side.other t.price t.qty t.makerLeaves t.takerId t.tradeId,
    .fill t.taker t.takerId t.side t.price t.qty t.takerLeaves t.makerId t.tradeId]

def isFill : Event H → Bool
  | .fill .. => true
  | _ => false

/-- The fills among the events are those of trades with consecutive numbers from `first` up to
    `last`, each of a positive quantity. -/
def Tape (first last : ℕ) (events : List (Event H)) : Prop :=
  ∃ trades : List (Trade H), events.filter isFill = trades.flatMap Trade.reports ∧
    trades.map Trade.tradeId = List.range' first trades.length ∧
    last = first + trades.length ∧ ∀ t ∈ trades, 0 < t.qty

theorem Tape.append {first mid last : ℕ} {evs evs' : List (Event H)} (h : Tape first mid evs)
    (h' : Tape mid last evs') : Tape first last (evs ++ evs') := by
  obtain ⟨ts, hevs, hids, rfl, hpos⟩ := h
  obtain ⟨ts', hevs', hids', rfl, hpos'⟩ := h'
  refine ⟨ts ++ ts', ?_, ?_, ?_, ?_⟩
  · rw [List.filter_append, List.flatMap_append, hevs, hevs']
  · rw [List.map_append, hids, hids', List.length_append, List.range'_append_1]
  · rw [List.length_append, Nat.add_assoc]
  · exact List.forall_mem_append.mpr ⟨hpos, hpos'⟩

theorem Tape.of_none {first : ℕ} {evs : List (Event H)} (h : ∀ ev ∈ evs, isFill ev = false) :
    Tape first first evs :=
  ⟨[], List.filter_eq_nil_iff.mpr fun ev hev => by simp [h ev hev], rfl, rfl,
    fun _ ht => absurd ht List.not_mem_nil⟩

theorem tape_bboNote (first : ℕ) (x y : Option (ℕ × ℕ) × Option (ℕ × ℕ)) :
    Tape first first (bboNote x y : List (Event H)) := by
  refine .of_none fun ev hev => ?_
  unfold bboNote at hev
  split at hev
  next => exact absurd hev List.not_mem_nil
  next =>
    obtain rfl := List.mem_singleton.mp hev
    rfl

theorem tape_fills (orderId : ℕ) (side : Side) (who : H) (want first : ℕ)
    {hits : List (Hit ℕ ℕ H)} (hpos : ∀ hit ∈ hits, 0 < hit.qty) :
    Tape first (first + hits.length) (fills orderId side who want first hits) := by
  induction hits generalizing want first with
  | nil => exact .of_none fun _ hev => absurd hev List.not_mem_nil
  | cons hit hits ih =>
      obtain ⟨hhit, hhits⟩ := List.forall_mem_cons.mp hpos
      have hone : Tape first (first + 1) (Trade.reports ⟨hit.maker.owner, hit.maker.id, hit.leaves,
          who, orderId, want - hit.qty, side, hit.maker.price, hit.qty, first⟩) :=
        ⟨[_], (List.append_nil _).symm, rfl, rfl, fun t ht => by
          obtain rfl := List.mem_singleton.mp ht
          exact hhit⟩
      have hall := hone.append (ih (want - hit.qty) (first + 1) hhits)
      rwa [Nat.add_assoc, Nat.add_comm 1] at hall

section Tapes

variable {b : Book H} {side : Side} {orderId price qty : ℕ} {who : H}

theorem Book.Sound.tape_enter (h : b.Sound) (orderId : ℕ) (side : Side) (price qty : ℕ) (who : H) :
    Tape b.nextTradeId
    (b.enter orderId side price qty who).1.nextTradeId
    (b.enter orderId side price qty who).2 := by
  have hhits : ∀ hit ∈ (sweep (suits side price) (b.of side.other) qty).1, 0 < hit.qty :=
    fun hit hhit => ((swept _ _ _).hits_suit (h.positive side.other) hit hhit).2.2.1
  have htape := tape_fills orderId side who qty b.nextTradeId hhits
  by_cases hleft : (sweep (suits side price) (b.of side.other) qty).2.2 = 0
  · rw [Book.enter_filled hleft]
    exact htape
  · rw [Book.enter_rests hleft, Book.nextTradeId_set]
    refine htape.append (.of_none fun ev hev => ?_)
    obtain rfl := List.mem_singleton.mp hev
    rfl

theorem Book.Sound.tape_call (h : b.Sound) (c : Call H) :
    Tape b.nextTradeId (b.call c).1.nextTradeId (b.call c).2 := by
  have hnone : ∀ ev : Event H, isFill ev = false → Tape b.nextTradeId b.nextTradeId [ev] :=
    fun ev hev => .of_none fun ev' hev' => by
      obtain rfl := List.mem_singleton.mp hev'
      exact hev
  cases c with
  | place orderId side price qty who =>
      change Tape _ (b.place orderId side price qty who).1.nextTradeId
        (b.place orderId side price qty who).2
      unfold Book.place
      split
      next => exact hnone _ rfl
      next =>
        split
        next => exact hnone _ rfl
        next => exact (h.tape_enter orderId side price qty who).append (tape_bboNote ..)
  | cancel orderId who =>
      change Tape _ (b.cancel orderId who).1.nextTradeId (b.cancel orderId who).2
      unfold Book.cancel
      split
      next => exact hnone _ rfl
      next side m hfind =>
        have hid : (b.remove side orderId).nextTradeId = b.nextTradeId := Book.nextTradeId_set ..
        dsimp only
        rw [hid]
        exact (hnone (.canceled m.owner orderId m.qty) rfl).append (tape_bboNote ..)
  | replace orderId newPrice newQty who =>
      change Tape _ (b.replace orderId newPrice newQty who).1.nextTradeId
        (b.replace orderId newPrice newQty who).2
      unfold Book.replace
      split
      next => exact hnone _ rfl
      next side m hfind =>
        split
        next => exact hnone _ rfl
        next =>
          have hid : (b.remove side orderId).nextTradeId = b.nextTradeId := Book.nextTradeId_set ..
          have hentered := (h.remove side orderId).tape_enter orderId side newPrice newQty m.owner
          rw [hid] at hentered
          exact (hnone (.replaced m.owner orderId newPrice newQty) rfl).append
            (hentered.append (tape_bboNote ..))

end Tapes

end KasparHft.MatchingEngine
