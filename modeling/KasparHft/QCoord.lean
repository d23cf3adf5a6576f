import KasparHft.AssocMap
import KasparHft.MarketSide
import Mathlib.Algebra.Ring.Int.Defs
import Mathlib.Data.Int.Notation
import Mathlib.Data.List.Sort
import Mathlib.Data.Nat.Notation
import Mathlib.Logic.Function.Basic

/-!
# The shared queue

`light/qcoord.hpp`: the working orders of the lights of one side, by price and by light
(`mmid`), one order a light.  The total is kept as a running sum; the sizes at a price and
the cumulated sizes are cached until the next change.

`none` is a failed assertion, and for the lowest and the highest price a read at the end of
the container.  The last light in at a price and the cancel counter are left out.  Sizes do
not overflow, and a light is a natural number: a negative one is refused by `add_order` and
has nothing to remove.
-/

namespace KasparHft.Light22

open AssocMap

/-- `kMaxMmid`. -/
def kMaxMmid : ℕ := 256

/-- `QCoord::ord`. -/
structure QCoord.Ord where
  id : ℤ
  sz : ℤ
deriving DecidableEq, Repr

/-- The members of a `QCoord`. -/
structure QCoord where
  pxMmidOrd : Map ℤ (Map ℕ QCoord.Ord) := ∅
  mmidOrders : ℕ → Bool := fun _ => false
  totSzCache : ℤ := 0
  cacheSzAtPx : Map ℤ ℤ := ∅
  chacheCumSz : Map (Side × ℤ) ℤ := ∅
  attachedOrderId : ℕ := 0

/-- The size of a price level. -/
def levelSz (level : Map ℕ QCoord.Ord) : ℤ := total (fun _ o => o.sz) level

/-- `sz_at_px`. -/
def QCoord.szAtPx (q : QCoord) (px : ℤ) : QCoord × ℤ :=
  match q.cacheSzAtPx.lookup px with
  | some sz => (q, sz)
  | none =>
      match q.pxMmidOrd.lookup px with
      | none => (q, 0)
      | some level =>
          ({ q with cacheSzAtPx := q.cacheSzAtPx.insert px (levelSz level) }, levelSz level)

/-- The orders at a price. -/
def QCoord.level (q : QCoord) (px : ℤ) : Map ℕ QCoord.Ord := (q.pxMmidOrd.lookup px).getD ∅

/-- `add_order`.  The bound is checked against `sz_at_px`, which may still have the size from
    before this order in its cache. -/
def QCoord.addOrder (q : QCoord) (px sz : ℤ) (mmid : ℕ) (id mxsz : ℤ) : Option QCoord :=
  if ¬ (0 < sz ∧ 0 < mxsz) then none
  else if ((q.level px).lookup mmid).isSome then none
  else if ¬ mmid < kMaxMmid then none
  else
    let q := { q with
      pxMmidOrd := q.pxMmidOrd.insert px ((q.level px).insert mmid ⟨id, sz⟩)
      mmidOrders := Function.update q.mmidOrders mmid true }
    if mxsz < (q.szAtPx px).2 then none
    else some { q with totSzCache := q.totSzCache + sz, cacheSzAtPx := ∅, chacheCumSz := ∅ }

/-- `remove_order`: the size that is left, zero where the light has no order. -/
def QCoord.removeOrder (q : QCoord) (px sz : ℤ) (mmid : ℕ) (id : ℤ) (all : Bool) :
    Option (QCoord × ℤ) :=
  if all = false ∧ ¬ 0 < sz then none
  else if ¬ (mmid < kMaxMmid ∧ q.mmidOrders mmid) then some (q, 0)
  else
    match (q.level px).lookup mmid with
    | none => none
    | some o =>
        if o.id ≠ id then none
        else if o.sz < sz then none
        else if o.sz - sz = 0 ∨ all then
          some ({ q with
            pxMmidOrd := q.pxMmidOrd.insert px ((q.level px).erase mmid)
            mmidOrders := Function.update q.mmidOrders mmid false
            totSzCache := q.totSzCache - (o.sz - sz) - sz
            cacheSzAtPx := ∅
            chacheCumSz := ∅ }, 0)
        else
          some ({ q with
            pxMmidOrd := q.pxMmidOrd.insert px ((q.level px).insert mmid ⟨o.id, o.sz - sz⟩)
            totSzCache := q.totSzCache - sz
            cacheSzAtPx := ∅
            chacheCumSz := ∅ }, o.sz - sz)

/-- The sum of the sizes at the prices that `w` picks. -/
def QCoord.sumAt (q : QCoord) (w : ℤ → Bool) : ℤ :=
  total (fun p level => if w p then levelSz level else 0) q.pxMmidOrd

/-- The prices up to `px`: at or above it for a buy, at or below it for a sell. -/
def upto : Side → ℤ → ℤ → Bool
  | .buy, px, p => decide (px ≤ p)
  | .sel, px, p => decide (p ≤ px)

/-- `cum_sz_upto_px`. -/
def QCoord.cumSzUptoPx (q : QCoord) (side : Side) (px : ℤ) (useCache : Bool) : QCoord × ℤ :=
  match if useCache then q.chacheCumSz.lookup (side, px) else none with
  | some sz => (q, sz)
  | none =>
      let sz := q.sumAt (upto side px)
      (if useCache then { q with chacheCumSz := q.chacheCumSz.insert (side, px) sz } else q, sz)

/-- `std::numeric_limits<int>::min()`. -/
def intMin : ℤ := -2 ^ 31

/-- `std::numeric_limits<int>::max()`. -/
def intMax : ℤ := 2 ^ 31 - 1

/-- The prices of `px_mmid_ord` in the order of the map. -/
def QCoord.prices (q : QCoord) : List ℤ := q.pxMmidOrd.keys.insertionSort (· ≤ ·)

/-- The loop that skips empty levels.  It looks at a level before it compares with the end, so
    past the last one it reads at the end. -/
def QCoord.skipEmpty (q : QCoord) : List ℤ → Option ℤ
  | [] => none
  | px :: pxs => if (q.level px).entries.isEmpty then q.skipEmpty pxs else some px

/-- `lowest_price`. -/
def QCoord.lowestPrice (q : QCoord) : Option ℤ :=
  if q.pxMmidOrd.entries.isEmpty then some intMin else q.skipEmpty q.prices

/-- `highest_price`. -/
def QCoord.highestPrice (q : QCoord) : Option ℤ :=
  if q.pxMmidOrd.entries.isEmpty then some intMax else q.skipEmpty q.prices.reverse

/-! ### The orders listed -/

/-- The order of a light at a price. -/
def QCoord.entry (q : QCoord) (px : ℤ) (mmid : ℕ) : Option QCoord.Ord := (q.level px).lookup mmid

/-- All orders listed. -/
def QCoord.listed (q : QCoord) : List QCoord.Ord :=
  q.pxMmidOrd.entries.flatMap fun level => level.2.entries.map fun e => e.2

/-- The sum of the sizes listed. -/
def QCoord.listedSz (q : QCoord) : ℤ := total (fun _ level => levelSz level) q.pxMmidOrd

section Lemmas

variable {q q' : QCoord} {px sz id mxsz r : ℤ} {mmid : ℕ} {all : Bool}

/-- Looking a size up touches the cache only. -/
theorem szAtPx_fst (q : QCoord) (px : ℤ) :
    ∃ cache, (q.szAtPx px).1 = { q with cacheSzAtPx := cache } := by
  unfold QCoord.szAtPx
  split
  · exact ⟨q.cacheSzAtPx, rfl⟩
  · split
    · exact ⟨q.cacheSzAtPx, rfl⟩
    · exact ⟨_, rfl⟩

theorem levelSz_insert (level : Map ℕ QCoord.Ord) (mmid : ℕ) (o : QCoord.Ord) :
    levelSz (level.insert mmid o) = o.sz + levelSz (level.erase mmid) := total_insert

theorem levelSz_of_lookup {level : Map ℕ QCoord.Ord} {o : QCoord.Ord}
    (h : level.lookup mmid = some o) : levelSz level = o.sz + levelSz (level.erase mmid) := by
  unfold levelSz
  exact (total_erase_of_lookup h).symm

theorem levelSz_of_lookup_none {level : Map ℕ QCoord.Ord} (h : level.lookup mmid = none) :
    levelSz (level.erase mmid) = levelSz level :=
  total_erase_of_notMem (AList.lookup_eq_none.mp h)

/-- The entries with one level replaced by one that differs at one light. -/
theorem entry_insert {level : Map ℕ QCoord.Ord} {after : Option QCoord.Ord}
    (hat : level.lookup mmid = after)
    (hne : ∀ m, m ≠ mmid → level.lookup m = (q.level px).lookup m) (p : ℤ) (m : ℕ) :
    ({ q with pxMmidOrd := q.pxMmidOrd.insert px level } : QCoord).entry p m =
      if p = px ∧ m = mmid then after else q.entry p m := by
  unfold QCoord.entry QCoord.level
  by_cases hp : p = px
  · rw [hp, AList.lookup_insert, Option.getD_some]
    by_cases hm : m = mmid
    · rw [if_pos ⟨rfl, hm⟩, hm, hat]
    · rw [if_neg fun hpm => hm hpm.2]
      exact hne m hm
  · rw [if_neg fun hpm => hp hpm.1, AList.lookup_insert_ne hp]

theorem listedSz_eq_sumAt (q : QCoord) : q.listedSz = q.sumAt fun _ => true := rfl

/-- The sum with one level replaced. -/
theorem sumAt_insert (q : QCoord) (px : ℤ) (level : Map ℕ QCoord.Ord) (w : ℤ → Bool) :
    ({ q with pxMmidOrd := q.pxMmidOrd.insert px level } : QCoord).sumAt w =
      q.sumAt w + if w px then levelSz level - levelSz (q.level px) else 0 := by
  unfold QCoord.sumAt QCoord.level
  rw [total_insert]
  rcases hl : q.pxMmidOrd.lookup px with _ | old
  · have hnone : levelSz ((none : Option (Map ℕ QCoord.Ord)).getD ∅) = 0 := rfl
    rw [total_erase_of_notMem (AList.lookup_eq_none.mp hl), hnone]
    split <;> omega
  · have hold := total_erase_of_lookup (f := fun p level => if w p then levelSz level else 0) hl
    rw [Option.getD_some]
    by_cases hw : w px = true
    · rw [if_pos hw] at hold ⊢
      rw [if_pos hw]
      omega
    · rw [if_neg hw] at hold ⊢
      rw [if_neg hw]
      omega

/-! ### What a change does -/

/-- The size of an entry. -/
def entrySz (o : Option QCoord.Ord) : ℤ := (o.map QCoord.Ord.sz).getD 0

/-- The entry of one light at one price goes from `before` to `after`, and the light's bit
    says whether it has an order. -/
structure Changes (q q' : QCoord) (px : ℤ) (mmid : ℕ) (before after : Option QCoord.Ord) :
    Prop where
  held : q.entry px mmid = before
  entry : ∀ p m, q'.entry p m = if p = px ∧ m = mmid then after else q.entry p m
  bit : ∀ m, q'.mmidOrders m = if m = mmid then after.isSome else q.mmidOrders m
  tot : q'.totSzCache = q.totSzCache - entrySz before + entrySz after
  sumAt : ∀ w, q'.sumAt w = q.sumAt w + if w px then entrySz after - entrySz before else 0

theorem Changes.listedSz {before after : Option QCoord.Ord}
    (h : Changes q q' px mmid before after) :
    q'.listedSz = q.listedSz - entrySz before + entrySz after := by
  have hsum := h.sumAt fun _ => true
  rw [if_pos rfl] at hsum
  rw [listedSz_eq_sumAt, listedSz_eq_sumAt, hsum]
  omega

theorem addOrder_some (h : q.addOrder px sz mmid id mxsz = some q') :
    0 < sz ∧ mmid < kMaxMmid ∧ Changes q q' px mmid none (some ⟨id, sz⟩) := by
  unfold QCoord.addOrder at h
  split at h
  · cases h
  next hpos =>
    split at h
    · cases h
    next hfree =>
      split at h
      · cases h
      next hrange =>
        dsimp only at h
        split at h
        · cases h
        · have hnone : (q.level px).lookup mmid = none := by simpa using hfree
          obtain rfl := (Option.some.inj h).symm
          refine ⟨(not_not.mp hpos).1, not_not.mp hrange, hnone, ?_, ?_, ?_, ?_⟩
          · exact entry_insert (AList.lookup_insert _) fun m hm => AList.lookup_insert_ne hm
          · intro m
            exact Function.update_apply _ _ _ _
          · change q.totSzCache + sz = q.totSzCache - 0 + sz
            omega
          · intro w
            have hmore : levelSz ((q.level px).insert mmid ⟨id, sz⟩) - levelSz (q.level px) =
                entrySz (some ⟨id, sz⟩) - entrySz none := by
              rw [levelSz_insert, levelSz_of_lookup_none hnone]
              change sz + _ - _ = sz - 0
              omega
            rw [← hmore]
            exact sumAt_insert q px ((q.level px).insert mmid ⟨id, sz⟩) w

/-- A removal does nothing where the light has no order; else it takes its entry down or
    out. -/
theorem removeOrder_some (h : q.removeOrder px sz mmid id all = some (q', r)) :
    (¬ (mmid < kMaxMmid ∧ q.mmidOrders mmid = true) ∧ q' = q ∧ r = 0) ∨
      ∃ o, o.id = id ∧ sz ≤ o.sz ∧ (mmid < kMaxMmid ∧ q.mmidOrders mmid = true) ∧
        ((o.sz = sz ∨ all = true) ∧ r = 0 ∧ Changes q q' px mmid (some o) none ∨
          all = false ∧ 0 < sz ∧ o.sz ≠ sz ∧ r = o.sz - sz ∧
            Changes q q' px mmid (some o) (some ⟨id, o.sz - sz⟩)) := by
  unfold QCoord.removeOrder at h
  split at h
  · cases h
  next hpos =>
    split at h
    next hbit =>
      cases h
      exact .inl ⟨hbit, rfl, rfl⟩
    next hbit =>
      right
      have hbit := not_not.mp hbit
      rcases hl : (q.level px).lookup mmid with _ | o
      · rw [hl] at h
        cases h
      · rw [hl] at h
        dsimp only at h
        split at h
        · cases h
        next hid =>
          have hid := not_not.mp hid
          split at h
          · cases h
          next hle =>
            have hsplit := levelSz_of_lookup hl
            refine ⟨o, hid, Int.not_lt.mp hle, hbit, ?_⟩
            split at h
            next hwhole =>
              left
              cases h
              refine ⟨hwhole.imp_left fun hzero => by omega, rfl, hl, ?_, ?_, ?_, ?_⟩
              · exact entry_insert (AList.lookup_erase _ _) fun m hm => AList.lookup_erase_ne hm
              · intro m
                exact Function.update_apply _ _ _ _
              · change q.totSzCache - (o.sz - sz) - sz = q.totSzCache - o.sz + 0
                omega
              · intro w
                have hleft : levelSz ((q.level px).erase mmid) - levelSz (q.level px) =
                    entrySz none - entrySz (some o) := by
                  change _ = 0 - o.sz
                  omega
                rw [← hleft]
                exact sumAt_insert q px ((q.level px).erase mmid) w
            next hpart =>
              right
              rw [not_or] at hpart
              cases h
              have hall : all = false := by simpa using hpart.2
              refine ⟨hall, ?_, by omega, rfl, hl, ?_, ?_, ?_, ?_⟩
              · exact not_not.mp fun hneg => hpos ⟨hall, hneg⟩
              · rw [← hid]
                exact entry_insert (AList.lookup_insert _) fun m hm => AList.lookup_insert_ne hm
              · intro m
                dsimp only
                split
                next hm => rw [hm, hbit.2]; rfl
                next => rfl
              · change q.totSzCache - sz = q.totSzCache - o.sz + (o.sz - sz)
                omega
              · intro w
                have hleft : levelSz ((q.level px).insert mmid ⟨o.id, o.sz - sz⟩) -
                    levelSz (q.level px) =
                    entrySz (some ⟨id, o.sz - sz⟩) - entrySz (some o) := by
                  rw [levelSz_insert]
                  change o.sz - sz + _ - _ = o.sz - sz - o.sz
                  omega
                rw [← hleft]
                exact sumAt_insert q px ((q.level px).insert mmid ⟨o.id, o.sz - sz⟩) w

/-! ### What a look-up does -/

/-- The two queues list the same orders. -/
structure SameOrders (q q' : QCoord) : Prop where
  pxMmidOrd : q'.pxMmidOrd = q.pxMmidOrd
  mmidOrders : q'.mmidOrders = q.mmidOrders
  totSzCache : q'.totSzCache = q.totSzCache

theorem SameOrders.refl (q : QCoord) : SameOrders q q := ⟨rfl, rfl, rfl⟩

theorem SameOrders.trans {q q' q'' : QCoord} (h : SameOrders q q') (h' : SameOrders q' q'') :
    SameOrders q q'' :=
  ⟨h'.pxMmidOrd.trans h.pxMmidOrd, h'.mmidOrders.trans h.mmidOrders,
    h'.totSzCache.trans h.totSzCache⟩

theorem SameOrders.entry {q q' : QCoord} (h : SameOrders q q') (px : ℤ) (m : ℕ) :
    q'.entry px m = q.entry px m := by
  unfold QCoord.entry QCoord.level
  rw [h.pxMmidOrd]

theorem SameOrders.sumAt {q q' : QCoord} (h : SameOrders q q') (w : ℤ → Bool) :
    q'.sumAt w = q.sumAt w := by
  unfold QCoord.sumAt
  rw [h.pxMmidOrd]

theorem SameOrders.listedSz {q q' : QCoord} (h : SameOrders q q') : q'.listedSz = q.listedSz :=
  h.sumAt fun _ => true

theorem szAtPx_same (q : QCoord) (px : ℤ) : SameOrders q (q.szAtPx px).1 := by
  obtain ⟨cache, hcache⟩ := szAtPx_fst q px
  rw [hcache]
  exact ⟨rfl, rfl, rfl⟩

theorem Changes.congr {q₁ q₂ q₃ q₄ : QCoord} {before after : Option QCoord.Ord}
    (h : Changes q₂ q₃ px mmid before after) (hfirst : SameOrders q₁ q₂)
    (hlast : SameOrders q₃ q₄) : Changes q₁ q₄ px mmid before after := by
  constructor
  · rw [← hfirst.entry]
    exact h.held
  · intro p m
    rw [hlast.entry, h.entry, hfirst.entry]
  · intro m
    rw [hlast.mmidOrders, h.bit, hfirst.mmidOrders]
  · rw [hlast.totSzCache, h.tot, hfirst.totSzCache]
  · intro w
    rw [hlast.sumAt, h.sumAt, hfirst.sumAt]

/-! ### What holds of every queue -/

/-- What holds of a queue whatever was asked of it: entries have a size, the bits set are in
    range, and the total kept is the sum over the entries. -/
structure QCoord.Sound (q : QCoord) : Prop where
  pos : ∀ px m e, q.entry px m = some e → 0 < e.sz
  inRange : ∀ m, q.mmidOrders m = true → m < kMaxMmid
  tot : q.totSzCache = q.listedSz

theorem sound_new : QCoord.Sound {} where
  pos := fun px m e he => by cases he
  inRange := fun m hm => by cases hm
  tot := rfl

theorem SameOrders.sound (h : SameOrders q q') (hq : q.Sound) : q'.Sound := by
  constructor
  · intro px m e he
    rw [h.entry] at he
    exact hq.pos px m e he
  · rw [h.mmidOrders]
    exact hq.inRange
  · rw [h.totSzCache, h.listedSz]
    exact hq.tot

theorem Changes.sound {before after : Option QCoord.Ord} (h : Changes q q' px mmid before after)
    (hafter : ∀ e, after = some e → 0 < e.sz ∧ mmid < kMaxMmid) (hq : q.Sound) : q'.Sound := by
  constructor
  · intro p m e he
    rw [h.entry] at he
    split at he
    · exact (hafter e he).1
    · exact hq.pos p m e he
  · intro m hm
    rw [h.bit] at hm
    split at hm
    next heq =>
      obtain ⟨e, he⟩ := Option.isSome_iff_exists.mp hm
      rw [heq]
      exact (hafter e he).2
    next => exact hq.inRange m hm
  · rw [h.tot, h.listedSz, hq.tot]

end Lemmas

end KasparHft.Light22
