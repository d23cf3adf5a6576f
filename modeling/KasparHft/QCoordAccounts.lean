import KasparHft.Machine
import KasparHft.QCoord

/-!
# The accounts of the shared queue

A queue is asked and told one call at a time.  Its purpose is a ledger of the live orders by
light, from which every size is a sum: the running total, the caches and the bits of the queue
say the same as the ledger after any calls, as long as a light has one live order.

The cap on a level is checked before the caches are cleared, so a size read since the last
change lets one order over it.
-/

namespace KasparHft.Light22

open AssocMap Machine

/-! ### Calls -/

/-- The calls of a `QCoord`. -/
inductive Call where
  | addOrder (px sz : ℤ) (mmid : ℕ) (id mxsz : ℤ)
  | removeOrder (px sz : ℤ) (mmid : ℕ) (id : ℤ) (all : Bool)
  | szAtPx (px : ℤ)
  | cumSzUptoPx (side : Side) (px : ℤ) (useCache : Bool)
  | totalSz
deriving DecidableEq, Repr

/-- A call, with what it answers. -/
def QCoord.call (q : QCoord) : Call → Option (QCoord × List ℤ)
  | .addOrder px sz mmid id mxsz => (q.addOrder px sz mmid id mxsz).map fun q => (q, [])
  | .removeOrder px sz mmid id all =>
      (q.removeOrder px sz mmid id all).map fun r => (r.1, [r.2])
  | .szAtPx px => some ((q.szAtPx px).1, [(q.szAtPx px).2])
  | .cumSzUptoPx side px useCache =>
      some ((q.cumSzUptoPx side px useCache).1, [(q.cumSzUptoPx side px useCache).2])
  | .totalSz => some (q, [q.totSzCache])

section Calls

variable {q q' : QCoord} {px sz id mxsz r : ℤ} {mmid : ℕ} {all : Bool} {c : Call} {o : List ℤ}

/-- One level is written and the caches are cleared. -/
structure Writes (q q' : QCoord) (px : ℤ) : Prop where
  level : ∃ level, q'.pxMmidOrd = q.pxMmidOrd.insert px level
  cleared : q'.cacheSzAtPx = ∅
  clearedCum : q'.chacheCumSz = ∅

theorem addOrder_writes (h : q.addOrder px sz mmid id mxsz = some q') : Writes q q' px := by
  unfold QCoord.addOrder at h
  split at h
  · cases h
  · split at h
    · cases h
    · split at h
      · cases h
      · dsimp only at h
        split at h
        · cases h
        · cases h
          exact ⟨⟨_, rfl⟩, rfl, rfl⟩

theorem removeOrder_writes (h : q.removeOrder px sz mmid id all = some (q', r)) :
    q' = q ∨ Writes q q' px := by
  unfold QCoord.removeOrder at h
  split at h
  · cases h
  · split at h
    · cases h
      exact .inl rfl
    · split at h
      · cases h
      · split at h
        · cases h
        · split at h
          · cases h
          · right
            split at h
            · cases h
              exact ⟨⟨_, rfl⟩, rfl, rfl⟩
            · cases h
              exact ⟨⟨_, rfl⟩, rfl, rfl⟩

theorem szAtPx_snd (q : QCoord) (px : ℤ) :
    (q.szAtPx px).2 = (q.cacheSzAtPx.lookup px).getD (levelSz (q.level px)) := by
  unfold QCoord.szAtPx QCoord.level
  rcases q.cacheSzAtPx.lookup px with _ | cached
  · rcases q.pxMmidOrd.lookup px with _ | level <;> rfl
  · rfl

/-- An order is added when the size that the cache has for the price, or else the size with the
    order, is within the cap. -/
theorem addOrder_isSome_iff (id : ℤ) (hsz : 0 < sz) (hmx : 0 < mxsz)
    (hfree : q.entry px mmid = none) (hrange : mmid < kMaxMmid) :
    (q.addOrder px sz mmid id mxsz).isSome ↔
      (q.cacheSzAtPx.lookup px).getD (levelSz (q.level px) + sz) ≤ mxsz := by
  have hlevel : levelSz ((q.level px).insert mmid ⟨id, sz⟩) = levelSz (q.level px) + sz := by
    rw [levelSz_insert, levelSz_of_lookup_none hfree, add_comm]
  have hnone : ((q.level px).lookup mmid).isSome = false := by
    change (q.entry px mmid).isSome = false
    rw [hfree]
    rfl
  unfold QCoord.addOrder
  rw [if_neg fun h => h ⟨hsz, hmx⟩, hnone, if_neg Bool.false_ne_true, if_neg fun h => h hrange]
  dsimp only
  rw [szAtPx_snd, ← hlevel]
  unfold QCoord.level
  dsimp only
  rw [AList.lookup_insert, Option.getD_some]
  split
  next hover =>
    rw [Option.isSome_none]
    exact iff_of_false Bool.false_ne_true (Int.not_le.mpr hover)
  next hunder =>
    rw [Option.isSome_some]
    exact iff_of_true rfl (Int.not_lt.mp hunder)

/-- The size at a price is a sum over the prices. -/
theorem levelSz_level (q : QCoord) (px : ℤ) :
    levelSz (q.level px) = q.sumAt fun p => decide (p = px) := by
  unfold QCoord.level QCoord.sumAt
  have hrest : total (fun p level => if decide (p = px) = true then levelSz level else 0)
      (q.pxMmidOrd.erase px) = 0 := by
    refine total_eq_zero fun p level hp => if_neg ?_
    rw [decide_eq_true_iff]
    intro heq
    rw [heq, AList.lookup_erase] at hp
    cases hp
  rcases hl : q.pxMmidOrd.lookup px with _ | level
  · rw [← total_erase_of_notMem (AList.lookup_eq_none.mp hl), hrest]
    rfl
  · rw [← total_erase_of_lookup hl, hrest, if_pos (decide_eq_true rfl), add_zero]
    rfl

theorem Changes.levelSz {before after : Option QCoord.Ord} (h : Changes q q' px mmid before after)
    (p : ℤ) : levelSz (q'.level p) =
      levelSz (q.level p) + if p = px then entrySz after - entrySz before else 0 := by
  rw [levelSz_level, levelSz_level, h.sumAt]
  by_cases hp : px = p
  · rw [if_pos (decide_eq_true hp), if_pos hp.symm]
  · rw [if_neg fun h => hp (of_decide_eq_true h), if_neg fun h => hp h.symm]

theorem SameOrders.levelSz (h : SameOrders q q') (px : ℤ) :
    levelSz (q'.level px) = levelSz (q.level px) := by
  rw [levelSz_level, levelSz_level, h.sumAt]

/-! ### The caches -/

/-- A cached size is the sum over the live orders now. -/
structure QCoord.Coherent (q : QCoord) : Prop extends q.Sound where
  szCache : ∀ px sz, q.cacheSzAtPx.lookup px = some sz → sz = levelSz (q.level px)
  cumCache : ∀ k sz, q.chacheCumSz.lookup k = some sz → sz = q.sumAt (upto k.1 k.2)

theorem Writes.coherent (h : Writes q q' px) (hsound : q'.Sound) : q'.Coherent where
  toSound := hsound
  szCache := by
    rw [h.cleared]
    exact fun p sz hp => by cases hp
  cumCache := by
    rw [h.clearedCum]
    exact fun k sz hk => by cases hk

/-- What a cache says after a look-up is put into it. -/
theorem lookup_cache {κ : Type} [DecidableEq κ] {cache : Map κ ℤ} {f : κ → ℤ} {k : κ}
    (h : ∀ i w, cache.lookup i = some w → w = f i) :
    ∀ i w, (cache.insert k (f k)).lookup i = some w → w = f i := by
  intro i w hi
  by_cases hik : i = k
  · rw [hik, AList.lookup_insert] at hi
    rw [hik]
    exact (Option.some.inj hi).symm
  · rw [AList.lookup_insert_ne hik] at hi
    exact h i w hi

/-- **`sz_at_px` answers the size at the price.** -/
theorem szAtPx_eq (hq : q.Coherent) (px : ℤ) : (q.szAtPx px).2 = levelSz (q.level px) := by
  rw [szAtPx_snd]
  rcases hc : q.cacheSzAtPx.lookup px with _ | sz
  · rfl
  · exact hq.szCache px sz hc

theorem szAtPx_coherent (hq : q.Coherent) (px : ℤ) : (q.szAtPx px).1.Coherent := by
  unfold QCoord.szAtPx
  split
  · exact hq
  · split
    · exact hq
    next level hl =>
      have hlevel : levelSz level = levelSz (q.level px) := by
        unfold QCoord.level
        rw [hl]
        rfl
      refine ⟨SameOrders.sound (q := q) ⟨rfl, rfl, rfl⟩ hq.toSound, ?_, hq.cumCache⟩
      rw [hlevel]
      exact lookup_cache (f := fun px => levelSz (q.level px)) hq.szCache

theorem cumSzUptoPx_same (q : QCoord) (side : Side) (px : ℤ) (useCache : Bool) :
    SameOrders q (q.cumSzUptoPx side px useCache).1 := by
  unfold QCoord.cumSzUptoPx
  split
  · exact .refl q
  · dsimp only
    split
    · exact ⟨rfl, rfl, rfl⟩
    · exact .refl q

/-- **`cum_sz_upto_px` answers the size up to the price.** -/
theorem cumSzUptoPx_eq (hq : q.Coherent) (side : Side) (px : ℤ) (useCache : Bool) :
    (q.cumSzUptoPx side px useCache).2 = q.sumAt (upto side px) := by
  unfold QCoord.cumSzUptoPx
  cases useCache with
  | false => rfl
  | true =>
      rw [if_pos rfl]
      rcases hc : q.chacheCumSz.lookup (side, px) with _ | sz
      · rfl
      · exact hq.cumCache (side, px) sz hc

theorem cumSzUptoPx_coherent (hq : q.Coherent) (side : Side) (px : ℤ) (useCache : Bool) :
    (q.cumSzUptoPx side px useCache).1.Coherent := by
  unfold QCoord.cumSzUptoPx
  split
  · exact hq
  · dsimp only
    split
    · exact ⟨SameOrders.sound (q := q) ⟨rfl, rfl, rfl⟩ hq.toSound, hq.szCache,
        lookup_cache (f := fun k : Side × ℤ => q.sumAt (upto k.1 k.2)) hq.cumCache⟩
    · exact hq

/-- **Every call** keeps the caches coherent. -/
theorem call_coherent (hq : q.Coherent) (h : q.call c = some (q', o)) : q'.Coherent := by
  cases c with
  | addOrder px sz mmid id mxsz =>
      obtain ⟨q', hadd, heq⟩ := Option.map_eq_some_iff.mp h
      cases heq
      obtain ⟨hsz, hrange, hchange⟩ := addOrder_some hadd
      refine (addOrder_writes hadd).coherent (hchange.sound (fun e he => ?_) hq.toSound)
      obtain rfl := Option.some.inj he
      exact ⟨hsz, hrange⟩
  | removeOrder px sz mmid id all =>
      obtain ⟨⟨q', r⟩, hremove, heq⟩ := Option.map_eq_some_iff.mp h
      cases heq
      rcases removeOrder_writes hremove with rfl | hwrites
      · exact hq
      · refine hwrites.coherent ?_
        rcases removeOrder_some hremove with ⟨-, rfl, -⟩ | ⟨e, -, hle, hbit, hcase⟩
        · exact hq.toSound
        · rcases hcase with ⟨-, -, hchange⟩ | ⟨-, -, hne, -, hchange⟩
          · exact hchange.sound (fun e he => by cases he) hq.toSound
          · refine hchange.sound (fun e' he => ?_) hq.toSound
            obtain rfl := Option.some.inj he
            exact ⟨by dsimp only; omega, hbit.1⟩
  | szAtPx px =>
      cases h
      exact szAtPx_coherent hq px
  | cumSzUptoPx side px useCache =>
      cases h
      exact cumSzUptoPx_coherent hq side px useCache
  | totalSz =>
      cases h
      exact hq

theorem coherent_new : QCoord.Coherent {} where
  toSound := sound_new
  szCache := fun px sz h => by cases h
  cumCache := fun k sz h => by cases h

theorem run_coherent {calls : List Call} {out : List ℤ}
    (hrun : run QCoord.call {} calls = some (q, out)) : q.Coherent :=
  run_invariant (I := fun _ _ q => q.Coherent) coherent_new
    (fun _ _ _ _ _ _ hq h => call_coherent hq h) hrun

end Calls

/-! ### The ledger -/

/-- A live order: its price and what is left of it. -/
structure LiveOrd where
  px : ℤ
  sz : ℤ
deriving DecidableEq, Repr

/-- The live orders, by light. -/
abbrev Ledger := Map ℕ LiveOrd

/-- The size live at the prices that `w` picks. -/
def Ledger.sumAt (l : Ledger) (w : ℤ → Bool) : ℤ :=
  total (fun _ o => if w o.px then o.sz else 0) l

/-- Some of an order goes, or all of it: what is left of it. -/
def Ledger.remove (l : Ledger) (sz : ℤ) (mmid : ℕ) (all : Bool) : Ledger × ℤ :=
  match l.lookup mmid with
  | none => (l, 0)
  | some o =>
      if o.sz - sz = 0 ∨ all then (l.erase mmid, 0)
      else (l.insert mmid ⟨o.px, o.sz - sz⟩, o.sz - sz)

/-- What a call does to the live orders, and its answer by them. -/
def Ledger.call (l : Ledger) : Call → Option (Ledger × List ℤ)
  | .addOrder px sz mmid _ _ => some (l.insert mmid ⟨px, sz⟩, [])
  | .removeOrder _ sz mmid _ all => some ((l.remove sz mmid all).1, [(l.remove sz mmid all).2])
  | .szAtPx px => some (l, [l.sumAt fun p => decide (p = px)])
  | .cumSzUptoPx side px _ => some (l, [l.sumAt (upto side px)])
  | .totalSz => some (l, [l.sumAt fun _ => true])

/-- An order is added for a light without one. -/
def OneOrder (l : Ledger) : Call → Prop
  | .addOrder _ _ mmid _ _ => l.lookup mmid = none
  | _ => True

instance (l : Ledger) : ∀ c, Decidable (OneOrder l c)
  | .addOrder _ _ mmid _ _ => inferInstanceAs (Decidable (l.lookup mmid = none))
  | .removeOrder _ _ _ _ _ => isTrue trivial
  | .szAtPx _ => isTrue trivial
  | .cumSzUptoPx _ _ _ => isTrue trivial
  | .totalSz => isTrue trivial

/-- The entry of a light at a price, by the ledger. -/
def Ledger.entrySz (l : Ledger) (px : ℤ) (mmid : ℕ) : Option ℤ :=
  (l.lookup mmid).bind fun o => if o.px = px then some o.sz else none

/-- The queue and the ledger say the same. -/
structure Accounts (l : Ledger) (q : QCoord) : Prop where
  coherent : q.Coherent
  entry : ∀ px m, (q.entry px m).map QCoord.Ord.sz = l.entrySz px m
  bit : ∀ m, q.mmidOrders m = (l.lookup m).isSome
  sumAt : ∀ w, q.sumAt w = l.sumAt w

section Ledgers

variable {q q' : QCoord} {l : Ledger} {px sz id mxsz r : ℤ} {mmid : ℕ} {all : Bool} {c : Call}
  {o : List ℤ}

/-- The sum, with the part of one light set apart. -/
theorem Ledger.sumAt_split (l : Ledger) (mmid : ℕ) (w : ℤ → Bool) :
    l.sumAt w = ((l.lookup mmid).map fun o => if w o.px then o.sz else 0).getD 0 +
      Ledger.sumAt (l.erase mmid) w := by
  unfold Ledger.sumAt
  rcases hl : l.lookup mmid with _ | o
  · rw [total_erase_of_notMem (AList.lookup_eq_none.mp hl), Option.map_none, Option.getD_none,
      zero_add]
  · exact (total_erase_of_lookup hl).symm

theorem Ledger.sumAt_erase_congr {l' : Ledger} (h : ∀ m, m ≠ mmid → l'.lookup m = l.lookup m)
    (w : ℤ → Bool) : Ledger.sumAt (l'.erase mmid) w = Ledger.sumAt (l.erase mmid) w := by
  unfold Ledger.sumAt
  refine total_eq_of_lookup fun m => ?_
  by_cases hm : m = mmid
  · rw [hm, AList.lookup_erase, AList.lookup_erase]
  · rw [AList.lookup_erase_ne hm, AList.lookup_erase_ne hm, h m hm]

/-- The light's order is live in the ledger. -/
theorem Accounts.lookup {e : QCoord.Ord} (h : Accounts l q) (he : q.entry px mmid = some e) :
    l.lookup mmid = some ⟨px, e.sz⟩ := by
  have hentry := h.entry px mmid
  rw [he, Option.map_some] at hentry
  obtain ⟨o, ho, hsome⟩ := Option.bind_eq_some_iff.mp hentry.symm
  split at hsome
  next hpx =>
    rw [ho, ← hpx, ← Option.some.inj hsome]
  next => cases hsome

/-- The accounts agree after one entry changes in both. -/
theorem Accounts.of_changes {before after : Option QCoord.Ord} {l' : Ledger} (h : Accounts l q)
    (hchange : Changes q q' px mmid before after) (hcoherent : q'.Coherent)
    (hother : ∀ m, m ≠ mmid → l'.lookup m = l.lookup m)
    (hown : l'.lookup mmid = after.map fun e => ⟨px, e.sz⟩)
    (hbefore : l.lookup mmid = before.map fun e => ⟨px, e.sz⟩) : Accounts l' q' where
  coherent := hcoherent
  entry := by
    intro p m
    rw [hchange.entry]
    unfold Ledger.entrySz
    by_cases hm : m = mmid
    · have hleft := h.entry p mmid
      unfold Ledger.entrySz at hleft
      rw [hm, hown]
      by_cases hp : p = px
      · rw [if_pos ⟨hp, rfl⟩, hp]
        cases after with
        | none => rfl
        | some e => exact (if_pos rfl).symm
      · rw [if_neg fun hpm => hp hpm.1, hleft, hbefore]
        have hne : ¬ px = p := fun heq => hp heq.symm
        cases before <;> cases after <;> simp [hne]
    · rw [if_neg fun hpm => hm hpm.2, hother m hm]
      exact h.entry p m
  bit := by
    intro m
    rw [hchange.bit]
    split
    next hm => rw [hm, hown, Option.isSome_map]
    next hm => rw [hother m hm, h.bit]
  sumAt := by
    intro w
    rw [hchange.sumAt, h.sumAt, Ledger.sumAt_split l mmid, Ledger.sumAt_split l' mmid,
      Ledger.sumAt_erase_congr hother, hown, hbefore]
    cases before <;> cases after <;> simp only [Option.map_none, Option.map_some,
      Option.getD_none, Option.getD_some, entrySz] <;> split <;> omega

/-- The accounts do not see the caches. -/
theorem Accounts.of_same (h : Accounts l q) (hsame : SameOrders q q') (hcoherent : q'.Coherent) :
    Accounts l q' where
  coherent := hcoherent
  entry := by
    intro px m
    rw [hsame.entry]
    exact h.entry px m
  bit := by
    rw [hsame.mmidOrders]
    exact h.bit
  sumAt := by
    intro w
    rw [hsame.sumAt]
    exact h.sumAt w

theorem addOrder_accounts (h : Accounts l q) (hfree : l.lookup mmid = none)
    (hadd : q.addOrder px sz mmid id mxsz = some q') :
    Accounts (l.insert mmid ⟨px, sz⟩) q' := by
  obtain ⟨-, -, hchange⟩ := addOrder_some hadd
  have hcoherent : q'.Coherent :=
    call_coherent (c := .addOrder px sz mmid id mxsz) h.coherent
      (Option.map_eq_some_iff.mpr ⟨q', hadd, rfl⟩)
  exact h.of_changes hchange hcoherent (fun m hm => AList.lookup_insert_ne hm)
    (AList.lookup_insert _) hfree

theorem removeOrder_accounts (h : Accounts l q)
    (hremove : q.removeOrder px sz mmid id all = some (q', r)) :
    Accounts (l.remove sz mmid all).1 q' ∧ (l.remove sz mmid all).2 = r := by
  have hcoherent : q'.Coherent :=
    call_coherent (c := .removeOrder px sz mmid id all) h.coherent
      (Option.map_eq_some_iff.mpr ⟨(q', r), hremove, rfl⟩)
  unfold Ledger.remove
  rcases removeOrder_some hremove with ⟨hbit, rfl, rfl⟩ | ⟨e, -, -, -, hcase⟩
  · -- the light has no order: its bit is not set, or it is out of range
    have hnone : l.lookup mmid = none := by
      rcases hl : l.lookup mmid with _ | o
      · rfl
      · have hset : q'.mmidOrders mmid = true := by
          rw [h.bit, hl]
          rfl
        exact absurd ⟨h.coherent.inRange mmid hset, hset⟩ hbit
    rw [hnone]
    exact ⟨h, rfl⟩
  · rcases hcase with ⟨hwhole, rfl, hchange⟩ | ⟨hall, -, hne, rfl, hchange⟩
    · have hl := h.lookup hchange.held
      rw [hl]
      dsimp only
      rw [if_pos (hwhole.imp_left fun heq => by omega)]
      exact ⟨h.of_changes hchange hcoherent (fun m hm => AList.lookup_erase_ne hm)
        (AList.lookup_erase _ _) hl, rfl⟩
    · have hl := h.lookup hchange.held
      rw [hl]
      dsimp only
      rw [if_neg fun hwhole => hwhole.elim (fun heq => hne (by omega)) fun htrue => by
        rw [hall] at htrue
        cases htrue]
      exact ⟨h.of_changes hchange hcoherent (fun m hm => AList.lookup_insert_ne hm)
        (AList.lookup_insert _) hl, rfl⟩

theorem Accounts.totSzCache (h : Accounts l q) : q.totSzCache = l.sumAt fun _ => true := by
  rw [h.coherent.tot, listedSz_eq_sumAt, h.sumAt]

theorem Accounts.szAtPx (h : Accounts l q) (px : ℤ) :
    (q.szAtPx px).2 = l.sumAt fun p => decide (p = px) := by
  rw [szAtPx_eq h.coherent, levelSz_level, h.sumAt]

theorem Accounts.cumSzUptoPx (h : Accounts l q) (side : Side) (px : ℤ) (useCache : Bool) :
    (q.cumSzUptoPx side px useCache).2 = l.sumAt (upto side px) := by
  rw [cumSzUptoPx_eq h.coherent, h.sumAt]

/-- **Every call** does to the queue what it does to the ledger, and answers by it. -/
theorem call_accounts (h : Accounts l q) (hone : OneOrder l c) (hcall : q.call c = some (q', o)) :
    ∃ l', l.call c = some (l', o) ∧ Accounts l' q' := by
  have hcoherent := call_coherent h.coherent hcall
  cases c with
  | addOrder px sz mmid id mxsz =>
      obtain ⟨q', hadd, heq⟩ := Option.map_eq_some_iff.mp hcall
      cases heq
      exact ⟨_, rfl, addOrder_accounts h hone hadd⟩
  | removeOrder px sz mmid id all =>
      obtain ⟨⟨q', r⟩, hremove, heq⟩ := Option.map_eq_some_iff.mp hcall
      cases heq
      obtain ⟨haccounts, hleft⟩ := removeOrder_accounts h hremove
      refine ⟨_, ?_, haccounts⟩
      rw [← hleft]
      rfl
  | szAtPx px =>
      cases hcall
      refine ⟨l, ?_, h.of_same (szAtPx_same q px) hcoherent⟩
      unfold Ledger.call
      rw [h.szAtPx]
  | cumSzUptoPx side px useCache =>
      cases hcall
      refine ⟨l, ?_, h.of_same (cumSzUptoPx_same q side px useCache) hcoherent⟩
      unfold Ledger.call
      rw [h.cumSzUptoPx]
  | totalSz =>
      cases hcall
      refine ⟨l, ?_, h⟩
      unfold Ledger.call
      rw [h.totSzCache]

theorem accounts_new : Accounts ∅ {} where
  coherent := coherent_new
  entry := fun _ _ => rfl
  bit := fun _ => rfl
  sumAt := fun _ => rfl

/-- **Accounting.**  After any calls in which a light has at most one live order, every read has
    been answered by the ledger of the live orders, and the running total, the sizes at a price,
    the cumulated sizes and the bits are those of the ledger. -/
theorem reads_by_ledger {calls : List Call} {out : List ℤ}
    (hrun : run QCoord.call {} calls = some (q, out))
    (hone : AllSteps Ledger.call OneOrder ∅ calls) :
    ∃ l, run Ledger.call ∅ calls = some (l, out) ∧
      (q.totSzCache = l.sumAt fun _ => true) ∧
      (∀ px, (q.szAtPx px).2 = l.sumAt fun p => decide (p = px)) ∧
      (∀ side px useCache, (q.cumSzUptoPx side px useCache).2 = l.sumAt (upto side px)) ∧
      ∀ mmid, q.mmidOrders mmid = true ↔ ∃ o, l.lookup mmid = some o := by
  have hstep : ∀ l q c q' o, Accounts l q → OneOrder l c → QCoord.call q c = some (q', o) →
      ∃ l', Ledger.call l c = some (l', o) ∧ Accounts l' q' :=
    fun _ _ _ _ _ hacc hone hcall => call_accounts hacc hone hcall
  obtain ⟨l, hl, h⟩ := run_simulation accounts_new hstep hone hrun
  refine ⟨l, hl, h.totSzCache, h.szAtPx, h.cumSzUptoPx, fun mmid => ?_⟩
  rw [h.bit]
  exact Option.isSome_iff_exists

/-- Two lights at one price, and a read between a fill and a cancel. -/
def twoLightCalls : List Call :=
  [.addOrder 100 5 0 1 20, .szAtPx 100, .addOrder 100 7 1 2 20, .szAtPx 100,
    .removeOrder 100 2 0 1 false, .cumSzUptoPx .buy 99 true, .szAtPx 100,
    .removeOrder 100 0 1 2 true, .cumSzUptoPx .buy 99 true, .totalSz]

theorem reads_by_ledger_two :
    ∃ q l, (run QCoord.call {} twoLightCalls = some (q, [5, 12, 3, 10, 10, 0, 3, 3])) ∧
      run Ledger.call ∅ twoLightCalls = some (l, [5, 12, 3, 10, 10, 0, 3, 3]) ∧
      (q.totSzCache = l.sumAt fun _ => true) ∧
      ∀ mmid, q.mmidOrders mmid = true ↔ ∃ o, l.lookup mmid = some o := by
  have hout : (run QCoord.call {} twoLightCalls).map Prod.snd =
      some [5, 12, 3, 10, 10, 0, 3, 3] := by decide +kernel
  obtain ⟨⟨q, out⟩, hrun, rfl⟩ := Option.map_eq_some_iff.mp hout
  obtain ⟨l, hl, htot, -, -, hbit⟩ := reads_by_ledger hrun (by decide +kernel)
  exact ⟨q, l, hrun, hl, htot, hbit⟩

end Ledgers

end KasparHft.Light22
