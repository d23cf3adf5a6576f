import KasparHft.OrderBookSweep

/-!
# Positions in the queues

A queue is served from its head, so an order's place in it decides what it is filled.  No call
moves an order ahead of another: orders leave, they change in place, and who comes goes to the
tail.  An exchange order that is added is the last of its queue.
-/

namespace KasparHft.OB

open Ladder

/-! ### Queues that follow one another -/

/-- The orders that are left keep their order; those that have come are ours, behind them. -/
def Follows (q q' : List Order) : Prop :=
  ∃ kept new, q'.map Order.id = kept ++ new ∧ kept.Sublist (q.map Order.id) ∧
    ∀ i ∈ new, isSim i = true

theorem Follows.of_sublist {q q' : List Order}
    (h : (q'.map Order.id).Sublist (q.map Order.id)) : Follows q q' :=
  ⟨_, [], (List.append_nil _).symm, h, fun _ hi => (List.not_mem_nil hi).elim⟩

theorem Follows.refl (q : List Order) : Follows q q := .of_sublist (List.Sublist.refl _)

theorem Thins.follows {q q' : List Order} (h : Thins q q') : Follows q q' := by
  apply Follows.of_sublist
  have hids := List.Sublist.map Prod.fst h
  rwa [List.map_map, List.map_map] at hids

theorem Follows.append_sim (q : List Order) {o : Order} (h : o.isSim = true) :
    Follows q (q ++ [o]) := by
  refine ⟨q.map Order.id, [o.id], List.map_append, List.Sublist.refl _, ?_⟩
  intro i hi
  rw [List.mem_singleton.mp hi]
  exact h

theorem Follows.trans {q q' q'' : List Order} (h : Follows q q') (h' : Follows q' q'') :
    Follows q q'' := by
  obtain ⟨kept, new, heq, hkept, hnew⟩ := h
  obtain ⟨kept', new', heq', hkept', hnew'⟩ := h'
  rw [heq] at hkept'
  obtain ⟨kept₁, kept₂, rfl, hsub₁, hsub₂⟩ := List.sublist_append_iff.mp hkept'
  refine ⟨kept₁, kept₂ ++ new', by rw [heq', List.append_assoc], hsub₁.trans hkept, ?_⟩
  intro i hi
  rcases List.mem_append.mp hi with hi | hi
  · exact hnew i (hsub₂.subset hi)
  · exact hnew' i hi

/-! ### Books that follow one another -/

/-- So does every queue of the book. -/
def Book.FollowedBy (b b' : Book) : Prop := ∀ side p, Follows (b.qs side p) (b'.qs side p)

theorem Book.FollowedBy.of_qs {b b' : Book} (h : ∀ side, b'.qs side = b.qs side) :
    b.FollowedBy b' := by
  intro side p
  rw [h]
  exact .refl _

theorem Book.FollowedBy.trans {b b' b'' : Book} (h : b.FollowedBy b') (h' : b'.FollowedBy b'') :
    b.FollowedBy b'' :=
  fun side p => (h side p).trans (h' side p)

/-- One queue is replaced. -/
theorem followedBy_setQ {b : Book} {side : Side} {px : ℤ} {q : List Order}
    (h : Follows (b.qs side px) q) : b.FollowedBy (b.setQ side px q) := by
  intro side' p
  rw [qs_setQ]
  split
  next hat =>
    rw [hat.1, hat.2]
    exact h
  · exact .refl _

/-- The order joins the tail of its queue, and every other queue follows. -/
structure Book.Appends (b : Book) (side : Side) (px : ℤ) (o : Order) (b' : Book) : Prop where
  last : b'.qs side px = b.qs side px ++ [o]
  others : ∀ side' p, ¬ (side' = side ∧ p = px) → Follows (b.qs side' p) (b'.qs side' p)

/-- **The add of an exchange order** makes it the last of its queue. -/
theorem add_appends {cfg : Cfg} {currtim : ℕ} {b b' : Book} {a : AddArgs} {n : List Note}
    (hid : isSim a.id = false) (hpx : a.px < cfg.maxprice)
    (h : b.add cfg currtim a = some (b', n)) : b.Appends a.side a.px a.order b' := by
  obtain ⟨b₁, n₁, c, b₂, n₂, hsweep, hbo, rfl⟩ := add_real hid hpx h
  have hown : b₂.qs a.side a.px = b.qs a.side a.px := by
    obtain ⟨qs, rfl, -⟩ := fillStraySimOrders_sweep hsweep
    rw [checkForBoChange_qs hbo]
    cases a.side <;> rfl
  constructor
  · rw [qs_setQ, if_pos ⟨rfl, rfl⟩, hown]
  · intro side p hnot
    rw [qs_setQ, if_neg hnot, checkForBoChange_qs hbo]
    exact (fillStraySimOrders_thins hsweep side p).follows

theorem add_follows_of_sim {cfg : Cfg} {currtim : ℕ} {b b' : Book} {a : AddArgs} {n : List Note}
    (hid : isSim a.id = true) (h : b.add cfg currtim a = some (b', n)) : b.FollowedBy b' := by
  cases add_cases h with
  | offLadder _ => exact .of_qs fun _ => rfl
  | arrives _ _ _ _ => exact .of_qs fun _ => rfl
  | rests _ _ _ happ =>
      rw [append_eq happ]
      apply followedBy_setQ
      apply Follows.append_sim
      exact hid
  | real hreal _ _ _ _ =>
      rw [hid] at hreal
      cases hreal

theorem doCanc_follows {q q' : List Order} {o : Order} {a : ModArgs} {n : List Note}
    (h : doCanc q o a = some (q', n)) : Follows q q' := by
  apply Follows.of_sublist
  obtain ⟨left, -, ⟨-, -, rfl⟩ | ⟨-, -, rfl⟩⟩ := doCanc_cases h
  · exact List.filter_sublist.map _
  · have hids : (q.map fun x => if x.id = o.id then { o with sz := a.dispSz } else x).map Order.id =
        q.map Order.id := by
      rw [List.map_map]
      apply List.map_congr_left
      intro x _
      rw [Function.comp_apply]
      split
      next hx => exact hx.symm
      · rfl
    rw [hids]

theorem modQ_follows {q q' : List Order} {o : Order} {a : ModArgs} {n : List Note}
    (h : modQ q o a = some (q', n)) : Follows q q' := by
  obtain ⟨-, -, hexec⟩ | ⟨-, hcanc⟩ | ⟨rfl, -⟩ := modQ_cases h
  · exact (doExec_thins hexec).follows
  · exact doCanc_follows hcanc
  · exact .refl _

theorem mod_follows {cfg : Cfg} {b b' : Book} {a : ModArgs} {n : List Note}
    (h : b.mod cfg a = some (b', n)) : b.FollowedBy b' := by
  cases mod_cases h with
  | offLadder _ => exact .of_qs fun _ => rfl
  | missed _ _ _ => exact .of_qs fun _ => rfl
  | sim _ _ _ hq => exact followedBy_setQ (modQ_follows hq)
  | real _ _ _ hq hadj =>
      exact (followedBy_setQ (modQ_follows hq)).trans (.of_qs (adjust_qs hadj))

/-- **No call moves an order ahead of another**; the add of an exchange order apart, those that
    come are ours. -/
theorem step_follows {cfg : Cfg} {b b' : Book} {c : Call} {n : List Note}
    (hc : ∀ currtim a, c = .add currtim a → isSim a.id = true) (hclear : c ≠ .clear)
    (h : step cfg b c = some (b', n)) : b.FollowedBy b' := by
  cases c with
  | add currtim a => exact add_follows_of_sim (hc currtim a rfl) h
  | mod a => exact mod_follows h
  | clear => exact absurd rfl hclear

end KasparHft.OB
