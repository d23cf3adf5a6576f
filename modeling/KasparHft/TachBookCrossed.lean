import KasparHft.TachBookChange

/-!
# Crossed books

A New clears the contra levels it crosses, so the best bid stays below the best ask.  A
Change puts its size at a level and clears nothing: one that moves an order through the
best of the other side, or grows an order that an uncross has swept there, leaves the book
crossed.
-/

namespace KasparHft.TachBook

open AssocMap Machine

variable {Px : Type} {ops : PriceOps Px}

/-! ### Uncrossed books -/

/-- The best bid is below the best ask, or a side is empty. -/
def Book.Uncrossed (b : Book Px) : Prop :=
  b.bid.best < b.ask.best ∨ b.bid.best = invalidBid ∨ b.ask.best = invalidAsk

instance (b : Book Px) : Decidable b.Uncrossed := inferInstanceAs (Decidable (_ ∨ _))

/-- No level is at or through a level of the other side. -/
def Book.Apart (b : Book Px) : Prop :=
  ∀ sd p q, 0 < b.sz sd p → 0 < b.sz sd.other q → through sd p q = false

section Apart

variable {b b' : Book Px} {sd : Side} {p q px delta : ℤ}

@[simp] theorem other_other (sd : Side) : sd.other.other = sd := by
  cases sd <;> rfl

theorem other_ne (sd : Side) : sd.other ≠ sd := by
  cases sd <;> decide

theorem eq_or_other (sd sd' : Side) : sd' = sd ∨ sd' = sd.other := by
  cases sd <;> cases sd' <;> simp [Side.other]

theorem through_other (sd : Side) (p q : ℤ) : through sd.other p q = through sd q p := by
  cases sd <;> rfl

theorem through_eq_false {sd : Side} {p q : ℤ} :
    through sd p q = false ↔ sd.sign * p < sd.sign * q := by
  cases sd <;> simp [through]

/-- It is enough to look from one side. -/
theorem apart_of_side (sd : Side)
    (h : ∀ p q, 0 < b.sz sd p → 0 < b.sz sd.other q → through sd p q = false) : b.Apart := by
  intro sd' p q hp hq
  rcases eq_or_other sd sd' with rfl | rfl
  · exact h p q hp hq
  · rw [other_other] at hq
    rw [through_other]
    exact h q p hq hp

/-- **Uncrossed, by levels.** -/
theorem uncrossed_iff_apart (hbest : b.BestFirst) (hatt : ∀ sd, (b.side sd).Attained sd) :
    b.Uncrossed ↔ b.Apart := by
  constructor
  · intro hun
    refine apart_of_side .buy fun p q hp hq => ?_
    have hbid := (hbest .buy).le hp
    have hask := (hbest .sel).le hq
    have hvalid : b.bid.best ≠ invalidBid := by
      intro hinvalid
      have hzero := ((hbest .buy).invalid_iff (hatt .buy)).mp hinvalid p
      exact hp.ne' hzero
    have hvalid' : b.ask.best ≠ invalidAsk := by
      intro hinvalid
      have hzero := ((hbest .sel).invalid_iff (hatt .sel)).mp hinvalid q
      exact hq.ne' hzero
    have hlt := hun.resolve_right fun h => h.elim hvalid hvalid'
    have hbid : 1 * p ≤ 1 * b.bid.best := hbid
    have hask : -1 * q ≤ -1 * b.ask.best := hask
    exact decide_eq_false (by omega)
  · intro hapart
    rcases hatt .buy with hbid | hbid
    · exact .inr (.inl hbid)
    · rcases hatt .sel with hask | hask
      · exact .inr (.inr hask)
      · left
        have hno : through .buy b.bid.best b.ask.best = false := hapart .buy _ _ hbid hask
        have hgt : ¬ b.ask.best ≤ b.bid.best := of_decide_eq_false hno
        omega

/-! ### Sizes that move -/

theorem sz_updateSz_of_ne (h : ¬ (sd = sd' ∧ p = px)) (b : Book Px) (delta : ℤ) :
    (b.updateSz sd' px delta).sz sd p = b.sz sd p := by
  unfold Book.sz
  rw [side_updateSz]
  split
  next heq =>
    have hp : p ≠ px := fun hp => h ⟨heq, hp⟩
    rw [heq]
    by_cases hpx : OnLadder px
    · rw [getSz_updateSz hpx, if_neg hp]
    · rw [updateSz_of_offLadder hpx]
  next => rfl

theorem newSz_pos_of_nonpos {level : ℕ} (hdelta : delta ≤ 0) (h : 0 < newSz level delta) :
    0 < level := by
  unfold newSz at h
  split at h <;> omega

/-- What is taken off a level does not fill it. -/
theorem sz_pos_of_taken (hdelta : delta ≤ 0) {sd' : Side}
    (h : 0 < (b.updateSz sd' px delta).sz sd p) : 0 < b.sz sd p := by
  by_cases hat : sd = sd' ∧ p = px
  · obtain ⟨rfl, rfl⟩ := hat
    unfold Book.sz at h ⊢
    rw [side_updateSz, if_pos rfl] at h
    by_cases hpx : OnLadder p
    · rw [getSz_updateSz hpx, if_pos rfl] at h
      exact newSz_pos_of_nonpos hdelta h
    · rwa [updateSz_of_offLadder hpx] at h
  · rwa [sz_updateSz_of_ne hat] at h

theorem toInt32_neg_nonpos {n : ℕ} (h : n < 2 ^ 31) : -toInt32 n ≤ 0 := by
  rw [toInt32_of_lt h]
  omega

end Apart

/-! ### A New -/

/-- What a New on side `sd` at `px` crosses: at or through its price, and no better than the
    best of the other side. -/
def Book.Between (b : Book Px) (sd : Side) (px p : ℤ) : Prop :=
  through sd px p = true ∧ better sd.other p (b.side sd.other).best = false

instance (b : Book Px) (sd : Side) (px p : ℤ) : Decidable (b.Between sd px p) :=
  inferInstanceAs (Decidable (_ ∧ _))

/-- No level of the other side beyond these goes to zero. -/
def KeepsContra (b b' : Book Px) (sd : Side) (px : ℤ) : Prop :=
  ∀ p, ¬ b.Between sd px p → 0 < b.sz sd.other p → 0 < b'.sz sd.other p

/-- An order that the New takes over from the other side is not the last of its level. -/
def SparesContra (ops : PriceOps Px) (b : Book Px) (m : Mbo Px) : Prop :=
  ∀ sd ∈ getSide m.side, ∀ ord ∈ b.orders.lookup m.orderID, ord.side = sd.other →
    ¬ b.Between sd (ops.toPx m.pxd) (ops.toPx ord.pxd) →
    0 < b.sz ord.side (ops.toPx ord.pxd) → ord.displayQty < b.sz ord.side (ops.toPx ord.pxd)

instance (ops : PriceOps Px) (b : Book Px) (m : Mbo Px) : Decidable (SparesContra ops b m) := by
  unfold SparesContra
  infer_instance

section News

variable {b : Book Px} {m : Mbo Px} {sd : Side}

theorem dropHeld_pos (hsmall : b.SmallOrders) {oid : ℕ} {sd : Side} {p : ℤ}
    (h : 0 < (b.dropHeld ops oid).sz sd p) : 0 < b.sz sd p := by
  unfold Book.dropHeld at h
  split at h
  · exact h
  next ex hl =>
    rw [sz_orders] at h
    exact sz_pos_of_taken (toInt32_neg_nonpos (hsmall _ _ hl)) h

theorem sz_place_of_ne {sd' : Side} {p : ℤ} (h : ¬ (sd' = sd ∧ p = ops.toPx m.pxd)) :
    (b.place ops m sd).sz sd' p = b.sz sd' p := by
  unfold Book.place
  rw [sz_orders, sz_updateSz_of_ne h]

/-- Off the New's own level, what is left had a size before. -/
theorem placed_pos (hsmall : b.SmallOrders) {sd' : Side} {p : ℤ}
    (h : ¬ (sd' = sd ∧ p = ops.toPx m.pxd))
    (hpos : 0 < ((b.dropHeld ops m.orderID).place ops m sd).sz sd' p) : 0 < b.sz sd' p := by
  rw [sz_place_of_ne h] at hpos
  exact dropHeld_pos hsmall hpos

/-- **A New leaves the book uncrossed.** -/
theorem new_apart (hapart : b.Apart) (hsmall : b.SmallOrders) (hbest : b.BestFirst) :
    (((b.dropHeld ops m.orderID).place ops m sd).uncross sd (ops.toPx m.pxd)).Apart := by
  have hplaced : ((b.dropHeld ops m.orderID).place ops m sd).BestFirst :=
    noneBetter_invariant.place (noneBetter_invariant.dropHeld hbest _) m sd
  refine apart_of_side sd fun p q hp hq => ?_
  rw [sz_uncross, if_neg fun h => other_ne sd h.1.symm] at hp
  rw [sz_uncross] at hq
  split at hq
  · exact absurd hq (Nat.lt_irrefl 0)
  next hkept =>
    have hno : through sd (ops.toPx m.pxd) q = false := by
      by_contra htrue
      rw [Bool.not_eq_false] at htrue
      exact hkept ⟨rfl, clears_of_through hplaced htrue hq⟩
    by_cases hat : p = ops.toPx m.pxd
    · rw [hat]
      exact hno
    · exact hapart sd p q (placed_pos hsmall (fun h => hat h.2) hp)
        (placed_pos hsmall (fun h => other_ne sd h.1) hq)

/-- The levels of the other side after a New, beyond what it crosses. -/
theorem sz_new_contra (hsmall : b.SmallOrders) (hbest : b.BestFirst) {p : ℤ}
    (hout : ¬ b.Between sd (ops.toPx m.pxd) p) :
    (((b.dropHeld ops m.orderID).place ops m sd).uncross sd (ops.toPx m.pxd)).sz sd.other p =
      (b.dropHeld ops m.orderID).sz sd.other p := by
  have hother : ¬ (sd.other = sd ∧ p = ops.toPx m.pxd) := fun h => other_ne sd h.1
  rw [sz_uncross]
  split
  next hcleared =>
    obtain ⟨hthrough, hpos⟩ := through_of_clears hcleared.2
    have hbefore := placed_pos hsmall hother hpos
    exact absurd ⟨hthrough, better_iff.mpr ((hbest sd.other).le hbefore)⟩ hout
  next => exact sz_place_of_ne hother

theorem new_keepsContra_iff (hsmall : b.SmallOrders) (hword : ∀ sd px, b.sz sd px < 2 ^ 32)
    (hbest : b.BestFirst) (hside : getSide m.side = some sd) :
    KeepsContra b
        (((b.dropHeld ops m.orderID).place ops m sd).uncross sd (ops.toPx m.pxd)) sd
        (ops.toPx m.pxd) ↔ SparesContra ops b m := by
  have htaken : ∀ ord, b.orders.lookup m.orderID = some ord → ∀ p,
      (b.dropHeld ops m.orderID).sz sd.other p =
        if sd.other = ord.side ∧ p = ops.toPx ord.pxd then
          b.sz ord.side (ops.toPx ord.pxd) - ord.displayQty
        else b.sz sd.other p := by
    intro ord hl p
    unfold Book.dropHeld
    rw [hl]
    dsimp only
    rw [sz_orders, toInt32_of_lt (hsmall _ _ hl), sz_updateSz_sub (hword _ _)]
  constructor
  · intro hkeeps sd' hsd' ord hl hcontra hout hpos
    obtain rfl : sd = sd' := Option.some.inj (hside.symm.trans hsd')
    rw [hcontra] at hpos ⊢
    have hafter := hkeeps _ hout hpos
    rw [sz_new_contra hsmall hbest hout, htaken ord hl, if_pos ⟨hcontra.symm, rfl⟩, hcontra]
      at hafter
    omega
  · intro hspares p hout hpos
    rw [sz_new_contra hsmall hbest hout]
    rcases hl : b.orders.lookup m.orderID with _ | ord
    · unfold Book.dropHeld
      rw [hl]
      exact hpos
    · rw [htaken ord hl]
      split
      next hat =>
        obtain ⟨hcontra, rfl⟩ := hat
        rw [hcontra] at hpos
        have := hspares sd hside ord hl hcontra.symm hout hpos
        omega
      next => exact hpos

end News

/-! ### A Change -/

/-- The level onto which a Change of a held order puts a size, if it does. -/
def Book.lands (ops : PriceOps Px) (b : Book Px) (m : Mbo Px) : Option (Side × ℤ) :=
  match b.orders.lookup m.orderID with
  | none => none
  | some ord =>
      if ops.eq m.pxd ord.pxd then
        if ord.displayQty < m.displayQty then some (ord.side, ops.toPx ord.pxd) else none
      else if (ord.displayQty < m.displayQty ∨ ops.pos m.pxd = true) ∧ 0 < m.displayQty then
        some (ord.side, ops.toPx m.pxd)
      else none

/-- That level is off the ladder, or not at or through the best of the other side. -/
def LandsClear (ops : PriceOps Px) (b : Book Px) (m : Mbo Px) : Prop :=
  ∀ l ∈ b.lands ops m, OnLadder l.2 → through l.1 l.2 (b.side l.1.other).best = false

instance (ops : PriceOps Px) (b : Book Px) (m : Mbo Px) : Decidable (LandsClear ops b m) := by
  unfold LandsClear
  infer_instance

/-- What a Change does to the sizes: nothing on the other side, and on its own a level has a
    size that had one before or is the one the Change lands on. -/
structure ChangesSizes (ops : PriceOps Px) (b b' : Book Px) (m : Mbo Px) (sd : Side) : Prop where
  contra : b'.side sd.other = b.side sd.other
  own : ∀ p, 0 < b'.sz sd p → 0 < b.sz sd p ∨ b.lands ops m = some (sd, p)
  landed : ∀ l, b.lands ops m = some l → l.1 = sd ∧
    (OnLadder l.2 → b.sz sd l.2 = 0 → 0 < b'.sz sd l.2)

section Changes

variable {b b' : Book Px} {m : Mbo Px} {ord : Order Px} {pl : Option (Payload Px)}

/-- A size put onto an empty level of the array is its size then. -/
theorem sz_updateSz_of_empty {sd : Side} {p : ℤ} {q : ℕ} (hp : OnLadder p) (hempty : b.sz sd p = 0)
    (hq : q < 2 ^ 32) : (b.updateSz sd p (q : ℤ)).sz sd p = q := by
  rw [sz_updateSz_add hp (by omega), if_pos ⟨rfl, rfl⟩, hempty, Nat.zero_add]

theorem side_updateSz_other (b : Book Px) (sd : Side) (px delta : ℤ) :
    (b.updateSz sd px delta).side sd.other = b.side sd.other := by
  rw [side_updateSz, if_neg (other_ne sd)]

theorem resize_changesSizes {delta : ℤ} (hlands : b.lands ops m = some (ord.side, ops.toPx ord.pxd))
    (hdelta : 0 < delta) (hlt : delta < 2 ^ 31) :
    ChangesSizes ops b (b.resize ops m ord delta) m ord.side := by
  have hnat : delta = (delta.toNat : ℤ) := by omega
  unfold Book.resize
  refine ⟨?_, ?_, ?_⟩
  · rw [side_orders, side_updateSz_other]
  · intro p hp
    rw [sz_orders] at hp
    by_cases hat : p = ops.toPx ord.pxd
    · rw [hat]
      exact .inr hlands
    · rw [sz_updateSz_of_ne fun h => hat h.2] at hp
      exact .inl hp
  · intro l hl
    obtain rfl := Option.some.inj (hlands.symm.trans hl)
    refine ⟨rfl, fun hpx hempty => ?_⟩
    rw [sz_orders, hnat, sz_updateSz_of_empty hpx hempty (by omega)]
    omega

theorem shrink_changesSizes {delta : ℤ} (hlands : b.lands ops m = none) (hdelta : delta ≤ 0) :
    ChangesSizes ops b (b.resize ops m ord delta) m ord.side := by
  unfold Book.resize
  refine ⟨?_, ?_, fun l hl => by rw [hlands] at hl; cases hl⟩
  · rw [side_orders, side_updateSz_other]
  · intro p hp
    rw [sz_orders] at hp
    exact .inl (sz_pos_of_taken hdelta hp)

theorem moveTo_changesSizes (hold : ord.displayQty < 2 ^ 31) (hq : m.displayQty < 2 ^ 31)
    (hlands : b.lands ops m =
      if 0 < m.displayQty then some (ord.side, ops.toPx m.pxd) else none) :
    ChangesSizes ops b (b.moveTo ops m ord ord.displayQty m.displayQty) m ord.side := by
  have htaken : ∀ p, 0 < (b.updateSz ord.side (ops.toPx ord.pxd) (-toInt32 ord.displayQty)).sz
      ord.side p → 0 < b.sz ord.side p := fun p => sz_pos_of_taken (toInt32_neg_nonpos hold)
  unfold Book.moveTo
  refine ⟨?_, ?_, ?_⟩
  · rw [side_orders, side_updateSz_other, side_updateSz_other]
  · intro p hp
    rw [sz_orders] at hp
    by_cases hat : p = ops.toPx m.pxd
    · by_cases hpos : 0 < m.displayQty
      · rw [hlands, if_pos hpos, hat]
        exact .inr rfl
      · left
        refine htaken p (sz_pos_of_taken ?_ hp)
        rw [toInt32_of_lt hq]
        omega
    · rw [sz_updateSz_of_ne fun h => hat h.2] at hp
      exact .inl (htaken p hp)
  · intro l hl
    rw [hlands] at hl
    split at hl
    next hpos =>
      obtain rfl := Option.some.inj hl
      refine ⟨rfl, fun hpx hempty => ?_⟩
      have hoff : (b.updateSz ord.side (ops.toPx ord.pxd) (-toInt32 ord.displayQty)).sz ord.side
          (ops.toPx m.pxd) = 0 := by
        by_contra hne
        exact (htaken _ (Nat.pos_of_ne_zero hne)).ne' hempty
      rw [sz_orders, toInt32_of_lt hq, sz_updateSz_of_empty hpx hoff (by omega)]
      exact hpos
    next => cases hl

theorem canc_changesSizes (hsmall : b.SmallOrders) (hl : b.orders.lookup m.orderID = some ord)
    (h : b.canc ops m = some (b', pl)) : ChangesSizes ops b b' m ord.side := by
  have hold := hsmall _ _ hl
  have hlands : b.lands ops m = if ops.eq m.pxd ord.pxd then
      if ord.displayQty < m.displayQty then some (ord.side, ops.toPx ord.pxd) else none
    else if (ord.displayQty < m.displayQty ∨ ops.pos m.pxd = true) ∧ 0 < m.displayQty then
      some (ord.side, ops.toPx m.pxd)
    else none := by
    unfold Book.lands
    rw [hl]
  obtain ⟨hq, hcases⟩ := canc_cases hl h
  rcases hcases with ⟨hgrow, heq, hpos, rfl⟩ | ⟨hmove, hne, rfl⟩ | ⟨hshrink, hkept, rfl⟩
  · rw [if_pos heq, if_pos hgrow] at hlands
    refine resize_changesSizes hlands hpos ?_
    rw [toInt32_of_lt (by omega)]
    omega
  · refine moveTo_changesSizes hold hq ?_
    rw [hlands, if_neg hne]
    simp only [hmove, true_and]
  · refine shrink_changesSizes ?_ ?_
    · have hnot := Nat.not_lt.mpr hshrink
      rw [hlands]
      split
      · rfl
      next hne => exact if_neg fun h => h.1.elim hnot fun hpos => hne (hkept hpos)
    · rw [toInt32_of_lt hold, toInt32_of_lt hq]
      omega

/-- **A Change leaves the book uncrossed exactly when it lands clear of the other side.** -/
theorem change_apart_iff (hapart : b.Apart) (hbest : b.BestFirst)
    (hatt : ∀ sd, (b.side sd).Attained sd) {sd : Side} (hc : ChangesSizes ops b b' m sd) :
    b'.Apart ↔ LandsClear ops b m := by
  have hcontra : ∀ q, b'.sz sd.other q = b.sz sd.other q := by
    intro q
    unfold Book.sz
    rw [hc.contra]
  constructor
  · intro hapart' l hl hpx
    obtain ⟨hside, hlanded⟩ := hc.landed l hl
    obtain ⟨sd', px⟩ := l
    obtain rfl : sd' = sd := hside
    by_contra hthrough
    rw [Bool.not_eq_false] at hthrough
    obtain ⟨hlow, hhigh⟩ := hpx
    have hvalid : (b.side sd'.other).best ≠ invalid sd'.other := by
      intro hinvalid
      have hthrough : through sd' px (b.side sd'.other).best = true := hthrough
      rw [hinvalid] at hthrough
      cases sd' with
      | buy =>
          have hle : arraySize ≤ px := of_decide_eq_true hthrough
          exact absurd hhigh (Int.not_lt.mpr hle)
      | sel =>
          have hle : px ≤ -1 := of_decide_eq_true hthrough
          have hlow : 0 ≤ px := hlow
          omega
    have hpos : 0 < b.sz sd'.other (b.side sd'.other).best :=
      (hatt sd'.other).resolve_left hvalid
    have hempty : b.sz sd' px = 0 := by
      by_contra hne
      have hno := hapart sd' px _ (Nat.pos_of_ne_zero hne) hpos
      exact Bool.noConfusion (hno.symm.trans hthrough)
    have hno := hapart' sd' px _ (hlanded ⟨hlow, hhigh⟩ hempty) ((hcontra _).symm ▸ hpos)
    exact Bool.noConfusion (hno.symm.trans hthrough)
  · intro hclear
    refine apart_of_side sd fun p q hp hq => ?_
    have hq' : 0 < b.sz sd.other q := hcontra q ▸ hq
    rcases hc.own p hp with hold | hlands
    · exact hapart sd p q hold hq'
    · have hno := through_eq_false.mp (hclear _ hlands (onLadder_of_getSz_pos hp))
      have hle := (hbest sd.other).le hq'
      have hsign : sd.other.sign = -sd.sign := Side.sign_of_ne (other_ne sd)
      rw [hsign, Int.neg_mul, Int.neg_mul] at hle
      dsimp only at hno
      exact through_eq_false.mpr (by omega)

end Changes

/-! ### Every record -/

/-- The side of a record: a Change is on that of its order. -/
def Book.recordSide (b : Book Px) (m : Mbo Px) : Option Side :=
  if m.orderUpdateAction = 0 then getSide m.side
  else (b.orders.lookup m.orderID).map Order.side

/-- **Uncrossed books.**  In every state reached with the best bid below the best ask, or a
    side empty, a New or a Change leaves it so, and zeroes no level of the other
    side beyond what it crosses, exactly when a Change lands clear of the other side and a New
    takes over no order that is the last of such a level. -/
theorem stays_uncrossed_iff {s : State Px} {es : List (Event Px)} {out : List (Out Px)} {m : Mbo Px}
    {b : Book Px} {pl : Option (Payload Px)} (hrun : run (step ops) {} es = some (s, out))
    (hun : s.toBook.Uncrossed) (haction : m.orderUpdateAction = 0 ∨ m.orderUpdateAction = 1)
    (hb : s.toBook.applyMbo ops m = some (b, pl)) :
    (b.Uncrossed ∧
        ∀ sd ∈ s.toBook.recordSide m, KeepsContra s.toBook b sd (ops.toPx m.pxd)) ↔
      (m.orderUpdateAction = 1 → LandsClear ops s.toBook m) ∧
        (m.orderUpdateAction = 0 → SparesContra ops s.toBook m) := by
  have hbest : s.toBook.BestFirst := noneBetter_invariant.run hrun
  have hatt : ∀ sd, (s.toBook.side sd).Attained sd := attained_invariant.run hrun
  have hword : ∀ sd px, s.toBook.sz sd px < 2 ^ 32 := fun sd => word_invariant.run hrun sd
  have hsmall := smallOrders_of_run hrun
  have hapart := (uncrossed_iff_apart hbest hatt).mp hun
  have hbest' : b.BestFirst := noneBetter_invariant.applyMbo hbest hb
  have hatt' : ∀ sd, (b.side sd).Attained sd := attained_invariant.applyMbo hatt hb
  rw [uncrossed_iff_apart hbest' hatt']
  unfold Book.recordSide
  rcases haction with hnew | hchange
  · unfold Book.applyMbo at hb
    rw [if_pos hnew] at hb
    obtain ⟨sd, hside, -, rfl⟩ := add_cases hb
    rw [if_pos hnew, hside]
    have hapart' : (((s.toBook.dropHeld ops m.orderID).place ops m sd).uncross sd
        (ops.toPx m.pxd)).Apart := new_apart hapart hsmall hbest
    have hkeeps : KeepsContra s.toBook (((s.toBook.dropHeld ops m.orderID).place ops m sd).uncross
        sd (ops.toPx m.pxd)) sd (ops.toPx m.pxd) ↔ SparesContra ops s.toBook m :=
      new_keepsContra_iff hsmall hword hbest hside
    constructor
    · rintro ⟨-, hcontra⟩
      exact ⟨fun h => by omega, fun _ => hkeeps.mp (hcontra sd rfl)⟩
    · rintro ⟨-, hspares⟩
      refine ⟨hapart', fun sd' hsd' => ?_⟩
      obtain rfl := Option.some.inj hsd'
      exact hkeeps.mpr (hspares hnew)
  · have hnot : ¬ m.orderUpdateAction = 0 := by omega
    unfold Book.applyMbo at hb
    rw [if_neg hnot, if_pos hchange] at hb
    rw [if_neg hnot]
    rcases hl : s.toBook.orders.lookup m.orderID with _ | ord
    · have hclear : LandsClear ops s.toBook m := by
        intro l hlands
        unfold Book.lands at hlands
        rw [hl] at hlands
        cases hlands
      unfold Book.canc at hb
      rw [hl] at hb
      cases hb
      exact iff_of_true ⟨hapart, fun sd hsd => by cases hsd⟩ ⟨fun _ => hclear, fun h => by omega⟩
    · have hc := canc_changesSizes hsmall hl hb
      rw [change_apart_iff hapart hbest hatt hc]
      constructor
      · rintro ⟨hclear, -⟩
        exact ⟨fun _ => hclear, fun h => by omega⟩
      · rintro ⟨hclear, -⟩
        refine ⟨hclear hchange, fun sd hsd p _ hpos => ?_⟩
        obtain rfl := Option.some.inj hsd
        unfold Book.sz at hpos ⊢
        rwa [hc.contra]

/-- A Change that moves order 1. -/
def moveOfOne (px : ℤ) (qty : ℕ) : Mbo ℤ where
  venue := 1
  transactTime := 2
  sendingTime := 2
  orderUpdateAction := 1
  securityID := 1
  orderID := 1
  pxd := px
  displayQty := qty % 2 ^ 32
  displayQty_lt := mod_lt_2_32 qty
  side := '0'
  endOfEvent := true
  recovery := false

/-- A bid moves up to one tick below the ask. -/
theorem stays_uncrossed_iff_bid :
    ∃ s out b pl, run (step tickOps) {} [record 0 1 '0' 20 5, record 0 2 '1' 22 7] =
        some (s, out) ∧
      s.toBook.applyMbo tickOps (moveOfOne 21 5) = some (b, pl) ∧ b.Uncrossed := by
  have hfacts : (run (step tickOps) {} [record 0 1 '0' 20 5, record 0 2 '1' 22 7]).map (fun r =>
      decide (r.1.toBook.Uncrossed ∧ LandsClear tickOps r.1.toBook (moveOfOne 21 5) ∧
        (r.1.toBook.applyMbo tickOps (moveOfOne 21 5)).isSome = true)) = some true := by
    decide +kernel
  obtain ⟨⟨s, out⟩, hrun, htrue⟩ := Option.map_eq_some_iff.mp hfacts
  obtain ⟨hun, hclear, hsome⟩ := of_decide_eq_true htrue
  obtain ⟨⟨b, pl⟩, hb⟩ := Option.isSome_iff_exists.mp hsome
  exact ⟨s, out, b, pl, hrun, hb, ((stays_uncrossed_iff hrun hun (.inr rfl) hb).mpr
    ⟨fun _ => hclear, fun h => by cases h⟩).1⟩

/-- **A Change crosses the book.**  A bid moves to the price of the ask, and both stay. -/
theorem change_crosses_book :
    ¬ ∀ (es : List (Event ℤ)) (s : State ℤ) (out : List (Out ℤ)) (m : Mbo ℤ) (b : Book ℤ)
        (pl : Option (Payload ℤ)),
      run (step tickOps) {} es = some (s, out) → s.toBook.Uncrossed →
      (m.orderUpdateAction = 0 ∨ m.orderUpdateAction = 1) → OnLadder (tickOps.toPx m.pxd) →
      s.toBook.applyMbo tickOps m = some (b, pl) →
      b.Uncrossed ∧ ∀ sd ∈ s.toBook.recordSide m, KeepsContra s.toBook b sd (tickOps.toPx m.pxd) := by
  intro hall
  have hfacts : (run (step tickOps) {} [record 0 1 '0' 20 5, record 0 2 '1' 22 7]).bind (fun r =>
      (r.1.toBook.applyMbo tickOps (moveOfOne 22 5)).map fun r' =>
        decide (r.1.toBook.Uncrossed ∧ ¬ r'.1.Uncrossed)) = some true := by
    decide +kernel
  obtain ⟨⟨s, out⟩, hrun, happlied⟩ := Option.bind_eq_some_iff.mp hfacts
  obtain ⟨⟨b, pl⟩, hb, htrue⟩ := Option.map_eq_some_iff.mp happlied
  obtain ⟨hun, hcrossed⟩ := of_decide_eq_true htrue
  exact hcrossed (hall _ s out (moveOfOne 22 5) b pl hrun hun (.inr rfl) (by decide) hb).1

end KasparHft.TachBook
