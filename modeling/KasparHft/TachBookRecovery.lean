import KasparHft.TachBookBounds
import KasparHft.TachBookPublish

/-!
# Recovery from a snapshot

After a gap the feed re-sends every live order in a cycle of recovery News.  The level book
does nothing at the gap itself, and a New only replaces an order of its own id: an order
that went during the gap keeps its place in the map and on its level.

So the book is the snapshot after the cycle exactly when the cycle re-sends every order the
book held, and no record of the cycle takes off a level what the cycle has put there.
-/

namespace KasparHft.TachBook

open AssocMap Machine

variable {Px : Type} {ops : PriceOps Px}

/-! ### Snapshots -/

/-- The order a New brings. -/
def brought (m : Mbo Px) : Option (Order Px) :=
  (getSide m.side).map fun sd => ⟨sd, m.pxd, m.displayQty, m.displayQty_lt⟩

/-- The orders the cycle has placed, after one more New. -/
def placeIn (placed : Map ℕ (Order Px)) (m : Mbo Px) : Map ℕ (Order Px) :=
  match brought m with
  | none => placed
  | some o => placed.insert m.orderID o

/-- The records of a cycle, each with the reference data it finds. -/
abbrev Snapshot (Px : Type) := List (Asset × Mbo Px)

/-- The orders the cycle has placed, after the News of `snap`. -/
def placeAll : Map ℕ (Order Px) → Snapshot Px → Map ℕ (Order Px)
  | placed, [] => placed
  | placed, x :: snap => placeAll (placeIn placed x.2) snap

/-- The orders of a snapshot. -/
def snapshotOrders (snap : Snapshot Px) : Map ℕ (Order Px) := placeAll ∅ snap

/-- The snapshot as the book receives it. -/
def cycle (snap : Snapshot Px) : List (Event Px) := snap.map fun x => .data x.1 (.mbo x.2)

/-- One recovery New for each order. -/
structure IsSnapshot (snap : Snapshot Px) : Prop where
  recovery : ∀ x ∈ snap, x.2.recovery = true
  isNew : ∀ x ∈ snap, x.2.orderUpdateAction = 0
  once : (snap.map fun x => x.2.orderID).Nodup

/-- The orders map and the level sizes are those of the snapshot. -/
def Recovered (ops : PriceOps Px) (snap : Snapshot Px) (b : Book Px) : Prop :=
  (∀ oid, b.orders.lookup oid = (snapshotOrders snap).lookup oid) ∧
    ∀ sd px, OnLadder px → b.sz sd px = levelSum ops (snapshotOrders snap) sd px

/-- Every order of the book is in the snapshot. -/
def Resent (snap : Snapshot Px) (b : Book Px) : Prop :=
  ∀ oid ∈ b.orders.keys, oid ∈ snap.map fun x => x.2.orderID

instance (snap : Snapshot Px) (b : Book Px) : Decidable (Resent snap b) :=
  List.decidableBAll _ _

/-- A New crosses an order with a size on the ladder. -/
def Crosses (ops : PriceOps Px) (m : Mbo Px) (o : Order Px) : Prop :=
  getSide m.side = some o.side.other ∧
    through o.side.other (ops.toPx m.pxd) (ops.toPx o.pxd) = true ∧
    OnLadder (ops.toPx o.pxd) ∧ 0 < o.displayQty

instance (ops : PriceOps Px) (m : Mbo Px) (o : Order Px) : Decidable (Crosses ops m o) :=
  inferInstanceAs (Decidable (_ ∧ _))

/-- The New leaves what the cycle has placed on the levels: it crosses none of these orders,
    and the order it replaces has enough of its size left beside them. -/
def Spares (ops : PriceOps Px) (placed : Map ℕ (Order Px)) (b : Book Px) (m : Mbo Px) : Prop :=
  (∀ e ∈ placed.entries, ¬ Crosses ops m e.2) ∧
    match b.orders.lookup m.orderID with
    | none => True
    | some ord =>
        OnLadder (ops.toPx ord.pxd) → levelSum ops placed ord.side (ops.toPx ord.pxd) ≤
          b.sz ord.side (ops.toPx ord.pxd) - ord.displayQty

instance (ops : PriceOps Px) (placed : Map ℕ (Order Px)) (b : Book Px) (m : Mbo Px) :
    Decidable (Spares ops placed b m) :=
  match h : b.orders.lookup m.orderID with
  | none => decidable_of_iff (∀ e ∈ placed.entries, ¬ Crosses ops m e.2) (by simp [Spares, h])
  | some ord =>
      decidable_of_iff ((∀ e ∈ placed.entries, ¬ Crosses ops m e.2) ∧
        (OnLadder (ops.toPx ord.pxd) → levelSum ops placed ord.side (ops.toPx ord.pxd) ≤
          b.sz ord.side (ops.toPx ord.pxd) - ord.displayQty)) (by simp [Spares, h])

/-- The record is one the book reads. -/
def Addressed (s : State Px) : Event Px → Prop
  | .data a (.mbo m) => s.Reads a m
  | _ => True

instance (s : State Px) : ∀ e, Decidable (Addressed s e)
  | .data a (.mbo m) => inferInstanceAs (Decidable (s.Reads a m))
  | .data _ (.mboTrd _) | .data _ .chr | .data _ .gap | .data _ .other | .setExSymId _ | .bbboSub
  | .shutdown => inferInstanceAs (Decidable True)

/-- The orders the cycle has placed, carried along a run. -/
def notePlaced (_ : State Px) (e : Event Px) (placed : Map ℕ (Order Px)) : Map ℕ (Order Px) :=
  match e with
  | .data _ (.mbo m) => placeIn placed m
  | _ => placed

/-! ### One New -/

section OneNew

variable {b b' : Book Px} {placed held : Map ℕ (Order Px)} {m : Mbo Px}
  {pl : Option (Payload Px)}

/-- What the cycle has placed is on the levels. -/
def Kept (ops : PriceOps Px) (placed : Map ℕ (Order Px)) (b : Book Px) : Prop :=
  ∀ sd px, OnLadder px → levelSum ops placed sd px ≤ b.sz sd px

/-- What a New takes off a level: the size of the order it replaces. -/
def replacedSz (ops : PriceOps Px) (b : Book Px) (oid : ℕ) (sd : Side) (px : ℤ) : ℕ :=
  match b.orders.lookup oid with
  | none => 0
  | some ord => contrib ops sd px ord

theorem replacedSz_of_lookup (ops : PriceOps Px) {oid : ℕ} {ord : Order Px}
    (hl : b.orders.lookup oid = some ord) (sd : Side) (px : ℤ) :
    replacedSz ops b oid sd px = contrib ops sd px ord := by
  unfold replacedSz
  rw [hl]

theorem sz_place (hI : Bounded ops b) (hsum : SumsBelow ops [] b (2 ^ 31))
    (hq : m.displayQty < 2 ^ 31) (sd sd' : Side) {px : ℤ} (hlad : OnLadder px) :
    ((b.dropHeld ops m.orderID).place ops m sd).sz sd' px =
      b.sz sd' px - replacedSz ops b m.orderID sd' px +
        contrib ops sd' px ⟨sd, m.pxd, m.displayQty, m.displayQty_lt⟩ := by
  obtain ⟨hdrop, -, hsum'⟩ := dropHeld_bounded hI hsum m.orderID
  have hoff : (b.dropHeld ops m.orderID).sz sd' px =
      b.sz sd' px - replacedSz ops b m.orderID sd' px := by
    unfold Book.dropHeld replacedSz
    rcases hl : b.orders.lookup m.orderID with _ | ex
    · rfl
    · have hlevel := hI.within ex.side (ops.toPx ex.pxd)
      have hlt := levelSum_lt hsum ex.side (ops.toPx ex.pxd)
      dsimp only
      rw [sz_orders, sz_takeOff (hI.small _ _ hl) (by omega)]
  have hlt := hdrop.within sd (ops.toPx m.pxd)
  have hbound := levelSum_lt hsum' sd (ops.toPx m.pxd)
  unfold Book.place
  rw [sz_orders, toInt32_of_lt hq, sz_putOn (by omega), hoff]
  congr 1
  by_cases hat : sd' = sd ∧ px = ops.toPx m.pxd
  · rw [if_pos ⟨hat, hat.2 ▸ hlad⟩, hat.1, hat.2]
    exact (contrib_self ops ⟨sd, m.pxd, m.displayQty, m.displayQty_lt⟩).symm
  · rw [if_neg fun h => hat h.1]
    exact (contrib_eq_zero (by exact hat)).symm

theorem levelSum_placeIn {sd : Side} (hside : getSide m.side = some sd)
    (hnew : placed.lookup m.orderID = none) (sd' : Side) (px : ℤ) :
    levelSum ops (placeIn placed m) sd' px =
      contrib ops sd' px ⟨sd, m.pxd, m.displayQty, m.displayQty_lt⟩ +
        levelSum ops placed sd' px := by
  have hplace : placeIn placed m =
      placed.insert m.orderID ⟨sd, m.pxd, m.displayQty, m.displayQty_lt⟩ := by
    unfold placeIn brought
    rw [hside]
    rfl
  rw [hplace, levelSum_insert, ← liveSum_nil (placed.erase _), liveSum_erase_of_lookup_none hnew,
    liveSum_nil]

/-- **A New keeps what the cycle has placed exactly when it spares it.** -/
theorem add_kept_iff (hI : Bounded ops b) (hsum : SumsBelow ops [] b (2 ^ 31))
    (hnew : placed.lookup m.orderID = none) (h : b.add ops m = some (b', pl)) :
    Kept ops (placeIn placed m) b' ↔ Kept ops placed b ∧ Spares ops placed b m := by
  obtain ⟨sd, hside, hq, rfl⟩ := add_cases h
  have hplace := place_bounded hI hsum hq sd
  constructor
  · intro hkept
    have hbefore : ∀ sd' px, OnLadder px →
        levelSum ops placed sd' px ≤ b.sz sd' px - replacedSz ops b m.orderID sd' px := by
      intro sd' px hlad
      have hafter := hkept sd' px hlad
      rw [levelSum_placeIn hside hnew, sz_uncross] at hafter
      have hsz := sz_place hI hsum hq sd sd' hlad
      split at hafter <;> omega
    refine ⟨fun sd' px hlad => ?_, ?_, ?_⟩
    · exact Nat.le_trans (hbefore sd' px hlad) (Nat.sub_le _ _)
    · rintro ⟨oid, o⟩ he ⟨hcontra, hthrough, hlad, hpos⟩
      dsimp only at hcontra hthrough hlad hpos
      rw [hside] at hcontra
      obtain rfl := Option.some.inj hcontra
      have hafter := hkept o.side (ops.toPx o.pxd) hlad
      rw [levelSum_placeIn hside hnew,
        levelSum_of_lookup ops (AList.mem_lookup_iff.mpr he), contrib_self, sz_uncross] at hafter
      split at hafter
      · omega
      next hkeep =>
        refine hkeep ⟨by cases o.side <;> rfl, ?_⟩
        refine clears_of_through hplace.best hthrough ?_
        have hback : o.side.other.other = o.side := by cases o.side <;> rfl
        rw [hback]
        omega
    · split
      · trivial
      next ord hl =>
        intro hlad
        have := hbefore ord.side (ops.toPx ord.pxd) hlad
        rwa [replacedSz_of_lookup ops hl, contrib_self] at this
  · rintro ⟨hkept, hcross, hrest⟩ sd' px hlad
    rw [levelSum_placeIn hside hnew, sz_uncross]
    split
    next hcleared =>
      -- the placed orders of a level that is cleared have no size
      have hnone : levelSum ops placed sd' px = 0 := by
        apply total_eq_zero
        intro oid o ho
        by_cases hat : sd' = o.side ∧ px = ops.toPx o.pxd
        · have hnot := hcross ⟨oid, o⟩ (AList.mem_lookup_iff.mp ho)
          have hcontra : o.side.other = sd := by
            rw [← hat.1, hcleared.1]
            cases sd <;> rfl
          have hthrough := (through_of_clears hcleared.2).1
          unfold Crosses at hnot
          dsimp only at hnot
          rw [hcontra, ← hat.2] at hnot
          rw [contrib]
          by_contra hne
          refine hnot ⟨hside, hthrough, hlad, Nat.pos_of_ne_zero fun hzero => hne ?_⟩
          rw [hzero, ite_self]
        · exact contrib_eq_zero hat
      have hother : contrib ops sd' px ⟨sd, m.pxd, m.displayQty, m.displayQty_lt⟩ = 0 := by
        apply contrib_eq_zero
        rintro ⟨heq, -⟩
        rw [hcleared.1] at heq
        cases sd <;> cases heq
      omega
    next =>
      rw [sz_place hI hsum hq sd sd' hlad]
      have hleft : levelSum ops placed sd' px ≤
          b.sz sd' px - replacedSz ops b m.orderID sd' px := by
        rcases hl : b.orders.lookup m.orderID with _ | ord
        · have hzero : replacedSz ops b m.orderID sd' px = 0 := by
            unfold replacedSz
            rw [hl]
          rw [hzero]
          exact hkept sd' px hlad
        · rw [replacedSz_of_lookup ops hl]
          rw [hl] at hrest
          by_cases hat : sd' = ord.side ∧ px = ops.toPx ord.pxd
          · rw [hat.2] at hlad
            rw [hat.1, hat.2, contrib_self]
            exact hrest hlad
          · rw [contrib_eq_zero hat]
            exact hkept sd' px hlad
      omega

end OneNew

/-! ### Placing -/

section Placing

variable {placed : Map ℕ (Order Px)} {m : Mbo Px}

theorem placeIn_lookup_of_ne {oid : ℕ} (h : oid ≠ m.orderID) :
    (placeIn placed m).lookup oid = placed.lookup oid := by
  unfold placeIn
  split
  · rfl
  · exact AList.lookup_insert_ne h

theorem placeIn_lookup_self {o : Order Px} (h : brought m = some o) :
    (placeIn placed m).lookup m.orderID = some o := by
  unfold placeIn
  rw [h]
  exact AList.lookup_insert _

/-- A New in the orders map. -/
theorem add_orders {b b' : Book Px} {pl : Option (Payload Px)} (h : b.add ops m = some (b', pl)) :
    ∃ o, brought m = some o ∧ b'.orders.lookup m.orderID = some o ∧
      ∀ oid, oid ≠ m.orderID → b'.orders.lookup oid = b.orders.lookup oid := by
  obtain ⟨sd, hside, -, rfl⟩ := add_cases h
  refine ⟨⟨sd, m.pxd, m.displayQty, m.displayQty_lt⟩, ?_, ?_, ?_⟩
  · unfold brought
    rw [hside]
    rfl
  · rw [orders_uncross]
    exact AList.lookup_insert _
  · intro oid hne
    rw [orders_uncross]
    exact place_lookup_of_ne hne

/-- Every order the cycle has placed comes from one of its records. -/
theorem mem_of_placed {snap : Snapshot Px} {oid : ℕ} {o : Order Px}
    (h : (placeAll placed snap).lookup oid = some o) :
    placed.lookup oid = some o ∨ oid ∈ snap.map fun x => x.2.orderID := by
  induction snap generalizing placed with
  | nil => exact .inl h
  | cons x snap ih =>
      rw [List.map_cons, List.mem_cons]
      rcases ih h with hplaced | hlater
      · by_cases hne : oid = x.2.orderID
        · exact .inr (.inl hne)
        · rw [placeIn_lookup_of_ne hne] at hplaced
          exact .inl hplaced
      · exact .inr (.inr hlater)

/-- What the cycle has placed stays placed. -/
theorem placed_mono (placed : Map ℕ (Order Px)) {snap : Snapshot Px} {oid : ℕ}
    (h : (placed.lookup oid).isSome) :
    ((placeAll placed snap).lookup oid).isSome := by
  induction snap generalizing placed with
  | nil => exact h
  | cons x snap ih =>
      refine ih _ ?_
      by_cases hne : oid = x.2.orderID
      · unfold placeIn
        split
        · exact h
        · rw [hne, AList.lookup_insert]
          rfl
      · rw [placeIn_lookup_of_ne hne]
        exact h

end Placing

/-! ### The cycle -/

/-- A record of the cycle is a New of the book. -/
theorem step_cycle {s s' : State Px} {a : Asset} {m : Mbo Px} {o : List (Out Px)}
    (hread : s.Reads a m) (hnew : m.orderUpdateAction = 0)
    (h : step ops s (.data a (.mbo m)) = some (s', o)) :
    ∃ pl, s.toBook.add ops m = some (s'.toBook, pl) := by
  rcases step_book h with ⟨a', m', pl, heq, -, hb⟩ | ⟨-, a', heq⟩ | ⟨-, hother⟩
  · cases heq
    unfold Book.applyMbo at hb
    rw [if_pos hnew] at hb
    exact ⟨pl, hb⟩
  · cases heq
  · exact absurd hread (hother a m rfl)

/-- The condition of the cycle, over its steps. -/
def AllSpared (ops : PriceOps Px) (snap : Snapshot Px) (s : State Px)
    (placed : Map ℕ (Order Px)) : Prop :=
  AllSteps (withGhost (step ops) notePlaced) (fun sg e =>
    RecordMeets (Spares ops sg.2) sg.1 e) (s, placed) (cycle snap)

instance (ops : PriceOps Px) (snap : Snapshot Px) (s : State Px) (placed : Map ℕ (Order Px)) :
    Decidable (AllSpared ops snap s placed) :=
  inferInstanceAs (Decidable (AllSteps _ _ _ _))

section Cycle

variable {snap : Snapshot Px} {s s' : State Px} {out : List (Out Px)}

/-- The orders map of the book: what the cycle has placed, over what was held. -/
theorem cycle_orders (placed held : Map ℕ (Order Px))
    (hnew : ∀ x ∈ snap, x.2.orderUpdateAction = 0)
    (hread : AllSteps (step ops) Addressed s (cycle snap))
    (hheld : ∀ oid, s.orders.lookup oid = (placed.lookup oid).or (held.lookup oid))
    (hrun : run (step ops) s (cycle snap) = some (s', out)) :
    (∀ oid, s'.orders.lookup oid = ((placeAll placed snap).lookup oid).or (held.lookup oid)) ∧
      ∀ x ∈ snap, ((placeAll placed snap).lookup x.2.orderID).isSome := by
  induction snap generalizing s placed out with
  | nil =>
      obtain ⟨rfl, -⟩ := Prod.mk.inj (Option.some.inj hrun)
      exact ⟨hheld, fun x hx => absurd hx List.not_mem_nil⟩
  | cons x snap ih =>
      obtain ⟨hx, hsnap⟩ := List.forall_mem_cons.mp hnew
      obtain ⟨t, o, os, hs, hr, -⟩ := run_cons.mp hrun
      obtain ⟨hreads, hrest⟩ := allSteps_cons.mp hread
      obtain ⟨pl, hadd⟩ := step_cycle hreads hx hs
      obtain ⟨ord, hord, hself, hother⟩ := add_orders hadd
      have hstep : ∀ oid, t.orders.lookup oid =
          ((placeIn placed x.2).lookup oid).or (held.lookup oid) := by
        intro oid
        by_cases hne : oid = x.2.orderID
        · rw [hne, hself, placeIn_lookup_self hord]
          rfl
        · rw [hother oid hne, placeIn_lookup_of_ne hne]
          exact hheld oid
      obtain ⟨horders, hplaced⟩ := ih _ hsnap (hrest t o hs) hstep hr
      refine ⟨horders, List.forall_mem_cons.mpr ⟨?_, hplaced⟩⟩
      refine placed_mono (placeIn placed x.2) ?_
      rw [placeIn_lookup_self hord]
      rfl

/-- **The cycle keeps what it places exactly when every record spares it.** -/
theorem cycle_kept_iff (placed : Map ℕ (Order Px))
    (hnew : ∀ x ∈ snap, x.2.orderUpdateAction = 0)
    (honce : (snap.map fun x => x.2.orderID).Nodup)
    (hfresh : ∀ x ∈ snap, placed.lookup x.2.orderID = none)
    (hread : AllSteps (step ops) Addressed s (cycle snap))
    (hsums : AllSteps (step ops) (fun s _ => SumsBelow ops [] s.toBook (2 ^ 31)) s (cycle snap))
    (hI : Bounded ops s.toBook) (hrun : run (step ops) s (cycle snap) = some (s', out)) :
    Bounded ops s'.toBook ∧
      (Kept ops (placeAll placed snap) s'.toBook ↔
        Kept ops placed s.toBook ∧ AllSpared ops snap s placed) := by
  induction snap generalizing s placed out with
  | nil =>
      obtain ⟨rfl, -⟩ := Prod.mk.inj (Option.some.inj hrun)
      exact ⟨hI, fun h => ⟨h, trivial⟩, fun h => h.1⟩
  | cons x snap ih =>
      obtain ⟨hx, hsnap⟩ := List.forall_mem_cons.mp hnew
      obtain ⟨hxfresh, hfresh⟩ := List.forall_mem_cons.mp hfresh
      obtain ⟨hnotin, honce⟩ := List.nodup_cons.mp honce
      obtain ⟨t, o, os, hs, hr, -⟩ := run_cons.mp hrun
      obtain ⟨hreads, hrest⟩ := allSteps_cons.mp hread
      obtain ⟨hsum, hsumsRest⟩ := allSteps_cons.mp hsums
      obtain ⟨pl, hadd⟩ := step_cycle hreads hx hs
      have hfresh' : ∀ y ∈ snap, (placeIn placed x.2).lookup y.2.orderID = none := by
        intro y hy
        have hne : y.2.orderID ≠ x.2.orderID := by
          intro heq
          exact hnotin (List.mem_map.mpr ⟨y, hy, heq⟩)
        rw [placeIn_lookup_of_ne hne]
        exact hfresh y hy
      obtain ⟨hend, hiff⟩ := ih _ hsnap honce hfresh' (hrest t o hs) (hsumsRest t o hs)
        (step_bounded hI hsum hs) hr
      refine ⟨hend, ?_⟩
      rw [placeAll, hiff, add_kept_iff hI hsum hxfresh hadd]
      have hcons : AllSpared ops (x :: snap) s placed ↔
          Spares ops placed s.toBook x.2 ∧ AllSpared ops snap t (placeIn placed x.2) := by
        unfold AllSpared cycle
        rw [List.map_cons, allSteps_cons]
        constructor
        · rintro ⟨hspares, hafter⟩
          exact ⟨hspares hreads, hafter _ o (withGhost_eq_some.mpr ⟨hs, rfl⟩)⟩
        · rintro ⟨hspares, hafter⟩
          refine ⟨fun _ => hspares, ?_⟩
          rintro ⟨t', placed'⟩ o' hstep
          obtain ⟨hs', rfl⟩ := withGhost_eq_some.mp hstep
          obtain ⟨rfl, -⟩ := Prod.mk.inj (Option.some.inj (hs.symm.trans hs'))
          exact hafter
      rw [hcons, and_assoc]

/-- **Recovery.**  After a gap and a complete snapshot cycle the orders and the level sizes
    are those of the snapshot exactly when the cycle re-sends every order the book holds at
    the gap and each of its records spares what the ones before it have placed. -/
theorem recovered_iff {es : List (Event Px)} {a : Asset} {snap : Snapshot Px} {s s' : State Px}
    {out out' : List (Out Px)}
    (hgap : run (step ops) {} (es ++ [.data a .gap]) = some (s, out))
    (hsnap : IsSnapshot snap) (hread : AllSteps (step ops) Addressed s (cycle snap))
    (hcycle : run (step ops) s (cycle snap) = some (s', out'))
    (hsums : AllSteps (step ops) (fun s _ => SumsBelow ops [] s.toBook (2 ^ 31)) {}
      (es ++ [.data a .gap] ++ cycle snap)) :
    Recovered ops snap s'.toBook ↔ Resent snap s.toBook ∧ AllSpared ops snap s ∅ := by
  obtain ⟨hbefore, hafter⟩ := allSteps_append.mp hsums
  have hI := run_bounded hbefore hgap
  obtain ⟨horders, hplaced⟩ := cycle_orders ∅ s.orders hsnap.isNew hread
    (fun oid => by rw [AList.lookup_empty, Option.none_or]) hcycle
  obtain ⟨hend, hkept⟩ := cycle_kept_iff ∅ hsnap.isNew hsnap.once
    (fun x _ => AList.lookup_empty _) hread (hafter s out hgap) hI hcycle
  have hempty : Kept ops ∅ s.toBook := fun sd px _ => Nat.zero_le _
  constructor
  · rintro ⟨hsame, hsizes⟩
    refine ⟨?_, (hkept.mp fun sd px hlad => ?_).2⟩
    · intro oid hoid
      obtain ⟨ord, hord⟩ := Option.isSome_iff_exists.mp (AList.lookup_isSome.mpr hoid)
      have hmem := (hsame oid).symm.trans (horders oid)
      rcases hl : (placeAll ∅ snap).lookup oid with _ | o
      · rw [snapshotOrders, hl, hord] at hmem
        cases hmem
      · rcases mem_of_placed hl with hnone | hin
        · cases hnone
        · exact hin
    · exact Nat.le_of_eq (hsizes sd px hlad).symm
  · rintro ⟨hresent, hspared⟩
    have hsame : ∀ oid, s'.orders.lookup oid = (snapshotOrders snap).lookup oid := by
      intro oid
      rw [horders, snapshotOrders]
      by_cases hin : oid ∈ snap.map fun x => x.2.orderID
      · obtain ⟨x, hx, rfl⟩ := List.mem_map.mp hin
        obtain ⟨o, ho⟩ := Option.isSome_iff_exists.mp (hplaced x hx)
        rw [ho]
        rfl
      · have hnone : s.orders.lookup oid = none :=
          AList.lookup_eq_none.mpr fun hoid => hin (hresent oid hoid)
        rw [hnone, Option.or_none]
    refine ⟨hsame, fun sd px hlad => ?_⟩
    have hle := hend.within sd px
    have hge := hkept.mpr ⟨hempty, hspared⟩ sd px hlad
    have htotal : levelSum ops s'.orders sd px = levelSum ops (snapshotOrders snap) sd px :=
      total_eq_of_lookup hsame
    rw [htotal] at hle
    exact Nat.le_antisymm hle hge

end Cycle

/-- The record of a snapshot. -/
def snapshotNew (oid : ℕ) (side : Char) (px : ℤ) (qty : ℕ) : Asset × Mbo ℤ :=
  (⟨1, true⟩,
    { venue := 1, transactTime := 1, sendingTime := 1, orderUpdateAction := 0
      securityID := 1, orderID := oid, pxd := px, displayQty := qty % 2 ^ 32
      displayQty_lt := mod_lt_2_32 qty, side := side, endOfEvent := true
      recovery := true })

/-- The gap lost a Change of order 1, which the snapshot has at its new price, and the New of
    order 3. -/
theorem recovered_moved_order :
    ∃ s out s' out', run (step tickOps) {}
        ([record 0 1 '0' 20 5, record 0 2 '1' 22 7] ++ [.data ⟨1, true⟩ .gap]) = some (s, out) ∧
      run (step tickOps) s (cycle [snapshotNew 1 '0' 19 4, snapshotNew 2 '1' 22 7,
        snapshotNew 3 '0' 19 1]) = some (s', out') ∧
      Recovered tickOps [snapshotNew 1 '0' 19 4, snapshotNew 2 '1' 22 7, snapshotNew 3 '0' 19 1]
        s'.toBook := by
  have hfacts : (run (step tickOps) {}
      ([record 0 1 '0' 20 5, record 0 2 '1' 22 7] ++ [.data ⟨1, true⟩ .gap])).map (fun r =>
      decide ((run (step tickOps) r.1 (cycle [snapshotNew 1 '0' 19 4, snapshotNew 2 '1' 22 7,
          snapshotNew 3 '0' 19 1])).isSome = true ∧
        AllSteps (step tickOps) Addressed r.1 (cycle [snapshotNew 1 '0' 19 4,
          snapshotNew 2 '1' 22 7, snapshotNew 3 '0' 19 1]) ∧
        Resent [snapshotNew 1 '0' 19 4, snapshotNew 2 '1' 22 7, snapshotNew 3 '0' 19 1]
          r.1.toBook ∧
        AllSpared tickOps [snapshotNew 1 '0' 19 4, snapshotNew 2 '1' 22 7, snapshotNew 3 '0' 19 1]
          r.1 ∅)) = some true := by decide +kernel
  obtain ⟨⟨s, out⟩, hgap, htrue⟩ := Option.map_eq_some_iff.mp hfacts
  obtain ⟨hsome, hread, hresent, hspared⟩ := of_decide_eq_true htrue
  obtain ⟨⟨s', out'⟩, hcycle⟩ := Option.isSome_iff_exists.mp hsome
  have hsnap : IsSnapshot [snapshotNew 1 '0' 19 4, snapshotNew 2 '1' 22 7,
      snapshotNew 3 '0' 19 1] := ⟨by decide, by decide, by decide⟩
  exact ⟨s, out, s', out', hgap, hcycle,
    (recovered_iff hgap hsnap hread hcycle (by decide +kernel)).mpr ⟨hresent, hspared⟩⟩

/-- **An order deleted during the gap stays.**  Order 1 is in the book and not in the
    snapshot. -/
theorem snapshot_keeps_deleted_order :
    ¬ ∀ (es : List (Event ℤ)) (a : Asset) (snap : Snapshot ℤ) (s s' : State ℤ)
        (out out' : List (Out ℤ)),
      (∀ e ∈ es, e.IsLive) → IsSnapshot snap →
      run (step tickOps) {} (es ++ [.data a .gap]) = some (s, out) →
      AllSteps (step tickOps) Addressed s (cycle snap) →
      run (step tickOps) s (cycle snap) = some (s', out') →
      Recovered tickOps snap s'.toBook := by
  intro hall
  have hfacts : (run (step tickOps) {}
      ([record 0 1 '0' 20 5, record 0 2 '1' 22 7] ++ [.data ⟨1, true⟩ .gap])).map (fun r =>
      decide (AllSteps (step tickOps) Addressed r.1 (cycle [snapshotNew 2 '1' 22 7]) ∧
        (run (step tickOps) r.1 (cycle [snapshotNew 2 '1' 22 7])).map
          (fun r' => r'.1.bid.getSz 20) = some 5)) = some true := by decide +kernel
  obtain ⟨⟨s, out⟩, hgap, htrue⟩ := Option.map_eq_some_iff.mp hfacts
  obtain ⟨hread, hlevel⟩ := of_decide_eq_true htrue
  obtain ⟨⟨s', out'⟩, hcycle, hsz⟩ := Option.map_eq_some_iff.mp hlevel
  have hrec := hall [record 0 1 '0' 20 5, record 0 2 '1' 22 7] ⟨1, true⟩ [snapshotNew 2 '1' 22 7]
    s s' out out' (by decide) ⟨by decide, by decide, by decide⟩ hgap hread hcycle
  have hsame := hrec.2 .buy 20 (by decide)
  change s'.bid.getSz 20 = _ at hsame
  rw [hsz] at hsame
  revert hsame
  decide +kernel

end KasparHft.TachBook
