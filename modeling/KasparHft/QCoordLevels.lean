import KasparHft.QCoordAccounts

/-!
# The levels of the shared queue

Two things said of the prices in the queue.  `add_order` refuses what would bring a level over
the cap, but reads the level through the cache: an order goes over the cap where the price was
read since the last change.  The lowest and the highest price skip the levels that removals
leave empty, and read at the end of the container when there is nothing else.
-/

namespace KasparHft.Light22

open AssocMap Machine

variable {q q' : QCoord} {px sz id mxsz r : ℤ} {mmid : ℕ} {all : Bool} {c : Call}
  {calls : List Call} {o out : List ℤ}

/-! ### The cap -/

/-- The orders are added under the cap `M`. -/
def Call.CapIs (M : ℤ) : Call → Prop
  | .addOrder _ _ _ _ mxsz => mxsz = M
  | _ => True

/-- An order is added at a price that is not cached, or fits in there. -/
def KeepsCap (q : QCoord) : Call → Prop
  | .addOrder px sz _ _ mxsz =>
      q.cacheSzAtPx.lookup px = none ∨ levelSz (q.level px) + sz ≤ mxsz
  | _ => True

instance (q : QCoord) : ∀ c, Decidable (KeepsCap q c)
  | .addOrder _ _ _ _ _ => inferInstanceAs (Decidable (_ ∨ _))
  | .removeOrder _ _ _ _ _ => isTrue trivial
  | .szAtPx _ => isTrue trivial
  | .cumSzUptoPx _ _ _ => isTrue trivial
  | .totalSz => isTrue trivial

theorem keepsCap_addOrder : KeepsCap q (.addOrder px sz mmid id mxsz) ↔
    q.cacheSzAtPx.lookup px = none ∨ levelSz (q.level px) + sz ≤ mxsz := Iff.rfl

theorem pos_of_addOrder (h : q.addOrder px sz mmid id mxsz = some q') : 0 < mxsz := by
  unfold QCoord.addOrder at h
  split at h
  · cases h
  next hpos => exact (not_not.mp hpos).2

/-- **One order.**  What is added over the cap is refused exactly when the price is not cached,
    or the order fits, or the level was over the cap before. -/
theorem addOrder_refused_iff (hq : q.Coherent) (hsz : 0 < sz) (hmx : 0 < mxsz)
    (hfree : q.entry px mmid = none) (hrange : mmid < kMaxMmid) :
    (mxsz < levelSz (q.level px) + sz → q.addOrder px sz mmid id mxsz = none) ↔
      KeepsCap q (.addOrder px sz mmid id mxsz) ∨ mxsz < levelSz (q.level px) := by
  have haccepted := addOrder_isSome_iff id hsz hmx hfree hrange
  rw [keepsCap_addOrder, ← Option.not_isSome_iff_eq_none, haccepted]
  rcases hc : q.cacheSzAtPx.lookup px with _ | cached
  · rw [Option.getD_none]
    exact iff_of_true (fun hover => Int.not_le.mpr hover) (.inl (.inl rfl))
  · rw [Option.getD_some, hq.szCache px cached hc]
    simp only [reduceCtorEq, false_or]
    omega

/-- After an order that is accepted its level is within the cap exactly when the price was not
    cached or the order fitted. -/
theorem addOrder_keeps_iff (h : q.addOrder px sz mmid id mxsz = some q') :
    levelSz (q'.level px) ≤ mxsz ↔ KeepsCap q (.addOrder px sz mmid id mxsz) := by
  obtain ⟨hsz, hrange, hchange⟩ := addOrder_some h
  have haccepted := (addOrder_isSome_iff id hsz (pos_of_addOrder h) hchange.held
    hrange).mp (by rw [h]; rfl)
  have hlevel : levelSz (q'.level px) = levelSz (q.level px) + sz := by
    rw [hchange.levelSz, if_pos rfl]
    change _ + (sz - 0) = _
    omega
  rw [keepsCap_addOrder, hlevel]
  rcases hc : q.cacheSzAtPx.lookup px with _ | cached
  · rw [hc, Option.getD_none] at haccepted
    exact iff_of_true haccepted (.inl rfl)
  · simp only [reduceCtorEq, false_or]

/-- A removal takes no level up. -/
theorem removeOrder_level_le (hq : q.Coherent)
    (h : q.removeOrder px sz mmid id all = some (q', r)) (p : ℤ) :
    levelSz (q'.level p) ≤ levelSz (q.level p) := by
  rcases removeOrder_some h with ⟨-, rfl, -⟩ | ⟨e, -, -, -, hcase⟩
  · exact le_rfl
  · rcases hcase with ⟨-, -, hchange⟩ | ⟨-, hpos, -, -, hchange⟩
    · have hsz := hq.pos px mmid e hchange.held
      rw [hchange.levelSz]
      split
      · change _ + (0 - e.sz) ≤ _
        omega
      · omega
    · rw [hchange.levelSz]
      split
      · change _ + (e.sz - sz - e.sz) ≤ _
        omega
      · omega

/-- One call from levels within the cap. -/
theorem call_keeps_iff {M : ℤ} (hq : q.Coherent) (hcap : c.CapIs M)
    (hlevels : ∀ px, levelSz (q.level px) ≤ M) (h : q.call c = some (q', o)) :
    (∀ px, levelSz (q'.level px) ≤ M) ↔ KeepsCap q c := by
  cases c with
  | addOrder px sz mmid id mxsz =>
      obtain ⟨q', hadd, heq⟩ := Option.map_eq_some_iff.mp h
      cases heq
      obtain rfl : mxsz = M := hcap
      rw [← addOrder_keeps_iff hadd]
      constructor
      · intro hafter
        exact hafter px
      · intro hown p
        by_cases hp : p = px
        · rw [hp]
          exact hown
        · rw [(addOrder_some hadd).2.2.levelSz, if_neg hp, add_zero]
          exact hlevels p
  | removeOrder px sz mmid id all =>
      obtain ⟨⟨q', r⟩, hremove, heq⟩ := Option.map_eq_some_iff.mp h
      cases heq
      exact iff_of_true (fun p => (removeOrder_level_le hq hremove p).trans (hlevels p)) trivial
  | szAtPx px =>
      cases h
      refine iff_of_true (fun p => ?_) trivial
      rw [(szAtPx_same q px).levelSz]
      exact hlevels p
  | cumSzUptoPx side px useCache =>
      cases h
      refine iff_of_true (fun p => ?_) trivial
      rw [(cumSzUptoPx_same q side px useCache).levelSz]
      exact hlevels p
  | totalSz =>
      cases h
      exact iff_of_true hlevels trivial

/-- **The cap on a level.**  After any calls, an order that would bring a level over its cap is
    refused exactly when its price is not cached or the level was over the cap before.  In a run
    under one cap every level stays within it exactly when each order is added at a price that is
    not cached or fits in there. -/
theorem level_cap_iff (hrun : run QCoord.call {} calls = some (q, out)) :
    (∀ px sz mmid id mxsz, 0 < sz → 0 < mxsz → q.entry px mmid = none → mmid < kMaxMmid →
      ((mxsz < levelSz (q.level px) + sz → q.addOrder px sz mmid id mxsz = none) ↔
        KeepsCap q (.addOrder px sz mmid id mxsz) ∨ mxsz < levelSz (q.level px))) ∧
    ∀ M, 0 < M → (∀ c ∈ calls, c.CapIs M) →
      ((∀ past rest s os, calls = past ++ rest → run QCoord.call {} past = some (s, os) →
          ∀ px, levelSz (s.level px) ≤ M) ↔ AllSteps QCoord.call KeepsCap {} calls) := by
  constructor
  · intro px sz mmid id mxsz hsz hmx hfree hrange
    exact addOrder_refused_iff (run_coherent hrun) hsz hmx hfree hrange
  · intro M hM hcap
    refine always_iff_allSteps (I := fun _ q => ∀ px, levelSz (q.level px) ≤ M)
      (J := fun _ q => q.Coherent) (Q := fun _ c => c.CapIs M) coherent_new ?_ ?_ ?_
      (allSteps_of_forall hcap _) hrun
    · exact fun _ => hM.le
    · exact fun _ _ _ _ _ hq _ _ _ h => call_coherent hq h
    · exact fun _ _ _ _ _ hq hcap hlevels h => call_keeps_iff hq hcap hlevels h

/-- Two orders fill a level. -/
theorem level_cap_iff_filled :
    ∃ q, run QCoord.call {} [.addOrder 100 5 0 1 8, .addOrder 100 3 1 2 8] = some (q, []) ∧
      levelSz (q.level 100) ≤ 8 := by
  have hout : (run QCoord.call {} [.addOrder 100 5 0 1 8, .addOrder 100 3 1 2 8]).map Prod.snd =
      some [] := by decide +kernel
  obtain ⟨⟨q, out⟩, hrun, rfl⟩ := Option.map_eq_some_iff.mp hout
  have hlevels := (level_cap_iff hrun).2 8 (by decide) (by simp [Call.CapIs])
  exact ⟨q, hrun, hlevels.mpr (by decide +kernel) _ [] q [] (List.append_nil _).symm hrun 100⟩

/-- The level is read between two orders: it goes to ten over a cap of eight. -/
theorem read_level_exceeds_cap :
    ∃ q, run QCoord.call {} [.addOrder 100 5 0 1 8, .szAtPx 100, .addOrder 100 5 1 2 8] =
      some (q, [5]) ∧ 8 < levelSz (q.level 100) := by
  have hout : (run QCoord.call {} [.addOrder 100 5 0 1 8, .szAtPx 100, .addOrder 100 5 1 2 8]).map
      (fun r => (r.2, levelSz (r.1.level 100))) = some ([5], 10) := by decide +kernel
  obtain ⟨⟨q, out⟩, hrun, heq⟩ := Option.map_eq_some_iff.mp hout
  obtain ⟨rfl, hlevel⟩ := Prod.mk.inj heq
  exact ⟨q, hrun, by rw [hlevel]; decide⟩

/-! ### The lowest and the highest price -/

/-- The call adds an order. -/
def Call.IsAdd : Call → Prop
  | .addOrder _ _ _ _ _ => True
  | _ => False

/-- The first price with a live order in the order `le`, or the sentinel where there is none. -/
def QCoord.Extreme (q : QCoord) (le : ℤ → ℤ → Prop) (sentinel p : ℤ) : Prop :=
  (∀ px m, q.entry px m = none) ∧ p = sentinel ∨
    (∃ m e, q.entry p m = some e) ∧ ∀ px m e, q.entry px m = some e → le p px

theorem level_isEmpty_iff : (q.level px).entries.isEmpty = true ↔ ∀ m, q.entry px m = none := by
  rw [List.isEmpty_iff, entries_eq_nil_iff]
  rfl

theorem exists_of_not_isEmpty (h : ¬ (q.level px).entries.isEmpty = true) :
    ∃ m e, q.entry px m = some e := by
  rw [level_isEmpty_iff] at h
  obtain ⟨m, hm⟩ := not_forall.mp h
  exact ⟨m, Option.ne_none_iff_exists'.mp hm⟩

theorem not_isEmpty_of_entry {m : ℕ} {e : QCoord.Ord} (h : q.entry px m = some e) :
    ¬ (q.level px).entries.isEmpty = true := by
  rw [level_isEmpty_iff]
  intro hnone
  rw [hnone m] at h
  cases h

theorem lookup_of_entry {m : ℕ} {e : QCoord.Ord} (h : q.entry px m = some e) :
    ∃ level, q.pxMmidOrd.lookup px = some level := by
  unfold QCoord.entry QCoord.level at h
  rcases hl : q.pxMmidOrd.lookup px with _ | level
  · rw [hl] at h
    cases h
  · exact ⟨level, rfl⟩

theorem mem_listed_of_entry {m : ℕ} {e : QCoord.Ord} (h : q.entry px m = some e) :
    e ∈ q.listed := by
  obtain ⟨level, hl⟩ := lookup_of_entry h
  unfold QCoord.entry QCoord.level at h
  rw [hl, Option.getD_some] at h
  exact List.mem_flatMap.mpr ⟨⟨px, level⟩, AList.mem_lookup_iff.mp hl,
    List.mem_map.mpr ⟨⟨m, e⟩, AList.mem_lookup_iff.mp h, rfl⟩⟩

theorem mem_prices_of_entry {m : ℕ} {e : QCoord.Ord} (h : q.entry px m = some e) :
    px ∈ q.prices := by
  obtain ⟨level, hl⟩ := lookup_of_entry h
  have hmem : px ∈ q.pxMmidOrd := AList.lookup_isSome.mp (by rw [hl]; rfl)
  exact (List.mem_insertionSort _).mpr (AList.mem_keys.mp hmem)

/-- The loop reads at the end when all levels are empty. -/
theorem skipEmpty_eq_none {pxs : List ℤ} (h : ∀ px m, q.entry px m = none) :
    q.skipEmpty pxs = none := by
  induction pxs with
  | nil => rfl
  | cons px pxs ih =>
      unfold QCoord.skipEmpty
      rw [if_pos (level_isEmpty_iff.mpr (h px))]
      exact ih

/-- The loop stops at the first price with a live order. -/
theorem skipEmpty_eq_some {le : ℤ → ℤ → Prop} (hrefl : ∀ p, le p p) {pxs : List ℤ}
    (hsorted : pxs.Pairwise le) (hex : ∃ px ∈ pxs, ¬ (q.level px).entries.isEmpty = true) :
    ∃ p, q.skipEmpty pxs = some p ∧ ¬ (q.level p).entries.isEmpty = true ∧
      ∀ px ∈ pxs, ¬ (q.level px).entries.isEmpty = true → le p px := by
  induction pxs with
  | nil =>
      obtain ⟨px, hmem, -⟩ := hex
      cases hmem
  | cons p pxs ih =>
      obtain ⟨hfirst, hrest⟩ := List.pairwise_cons.mp hsorted
      unfold QCoord.skipEmpty
      by_cases hempty : (q.level p).entries.isEmpty = true
      · obtain ⟨px, hmem, hpx⟩ := hex
        have hmem : px ∈ pxs := by
          rcases List.mem_cons.mp hmem with rfl | hmem
          · exact absurd hempty hpx
          · exact hmem
        obtain ⟨p', hskip, hlive, hle⟩ := ih hrest ⟨px, hmem, hpx⟩
        rw [if_pos hempty]
        refine ⟨p', hskip, hlive, fun x hx hxlive => ?_⟩
        rcases List.mem_cons.mp hx with rfl | hx
        · exact absurd hempty hxlive
        · exact hle x hx hxlive
      · rw [if_neg hempty]
        refine ⟨p, rfl, hempty, fun x hx _ => ?_⟩
        rcases List.mem_cons.mp hx with rfl | hx
        · exact hrefl _
        · exact hfirst x hx

/-- What the loop finds over the prices in either order. -/
theorem extreme_iff {le : ℤ → ℤ → Prop} {pxs : List ℤ} (hsorted : pxs.Pairwise le)
    (hrefl : ∀ p, le p p) (hpxs : ∀ px, px ∈ q.prices → px ∈ pxs) (sentinel : ℤ) :
    (∃ p, (if q.pxMmidOrd.entries.isEmpty then some sentinel else q.skipEmpty pxs) = some p ∧
        q.Extreme le sentinel p) ↔
      q.pxMmidOrd.entries = [] ∨ ∃ px m e, q.entry px m = some e := by
  by_cases hempty : q.pxMmidOrd.entries = []
  · have hnone : ∀ px m, q.entry px m = none := by
      intro px m
      unfold QCoord.entry QCoord.level
      rw [entries_eq_nil_iff.mp hempty px]
      rfl
    rw [if_pos (List.isEmpty_iff.mpr hempty)]
    exact iff_of_true ⟨sentinel, rfl, .inl ⟨hnone, rfl⟩⟩ (.inl hempty)
  · rw [if_neg fun h => hempty (List.isEmpty_iff.mp h)]
    constructor
    · rintro ⟨p, hskip, ⟨hnone, -⟩ | ⟨⟨m, e, he⟩, -⟩⟩
      · rw [skipEmpty_eq_none hnone] at hskip
        cases hskip
      · exact .inr ⟨p, m, e, he⟩
    · rintro (h | ⟨px, m, e, he⟩)
      · exact absurd h hempty
      · obtain ⟨p, hskip, hlive, hle⟩ := skipEmpty_eq_some (q := q) hrefl hsorted
          ⟨px, hpxs px (mem_prices_of_entry he), not_isEmpty_of_entry he⟩
        refine ⟨p, hskip, .inr ⟨exists_of_not_isEmpty hlive, fun x m' e' hx => ?_⟩⟩
        exact hle x (hpxs x (mem_prices_of_entry hx)) (not_isEmpty_of_entry hx)

theorem Writes.entries_ne_nil (h : Writes q q' px) : q'.pxMmidOrd.entries ≠ [] := by
  obtain ⟨level, hlevel⟩ := h.level
  intro hnil
  have hnone := entries_eq_nil_iff.mp hnil px
  rw [hlevel, AList.lookup_insert] at hnone
  cases hnone

theorem entries_ne_nil_of_entry {m : ℕ} {e : QCoord.Ord} (h : q.entry px m = some e) :
    q.pxMmidOrd.entries ≠ [] := by
  obtain ⟨level, hl⟩ := lookup_of_entry h
  intro hnil
  rw [entries_eq_nil_iff.mp hnil px] at hl
  cases hl

theorem removeOrder_entries_iff (h : q.removeOrder px sz mmid id all = some (q', r)) :
    q'.pxMmidOrd.entries = [] ↔ q.pxMmidOrd.entries = [] := by
  rcases removeOrder_writes h with rfl | hwrites
  · rfl
  · rcases removeOrder_some h with ⟨-, rfl, -⟩ | ⟨e, -, -, -, hcase⟩
    · rfl
    · have hheld : q.entry px mmid = some e :=
        hcase.elim (fun h => h.2.2.held) fun h => h.2.2.2.2.held
      exact iff_of_false hwrites.entries_ne_nil (entries_ne_nil_of_entry hheld)

/-- The container is empty until an order is added. -/
theorem entries_eq_nil_iff_no_add (hrun : run QCoord.call {} calls = some (q, out)) :
    q.pxMmidOrd.entries = [] ↔ ∀ c ∈ calls, ¬ c.IsAdd := by
  refine run_invariant (I := fun calls _ q =>
    q.pxMmidOrd.entries = [] ↔ ∀ c ∈ calls, ¬ Call.IsAdd c) (by simp) ?_ hrun
  intro past os q c q' o hpast hcall
  rw [List.forall_mem_append, List.forall_mem_singleton]
  cases c with
  | addOrder px sz mmid id mxsz =>
      obtain ⟨q', hadd, heq⟩ := Option.map_eq_some_iff.mp hcall
      cases heq
      exact iff_of_false (addOrder_writes hadd).entries_ne_nil fun h => h.2 trivial
  | removeOrder px sz mmid id all =>
      obtain ⟨⟨q', r⟩, hremove, heq⟩ := Option.map_eq_some_iff.mp hcall
      cases heq
      rw [removeOrder_entries_iff hremove, hpast]
      exact (and_iff_left fun h => h).symm
  | szAtPx px =>
      cases hcall
      rw [(szAtPx_same q px).pxMmidOrd, hpast]
      exact (and_iff_left fun h => h).symm
  | cumSzUptoPx side px useCache =>
      cases hcall
      rw [(cumSzUptoPx_same q side px useCache).pxMmidOrd, hpast]
      exact (and_iff_left fun h => h).symm
  | totalSz =>
      cases hcall
      rw [hpast]
      exact (and_iff_left fun h => h).symm

theorem mem_prices_reverse (q : QCoord) (px : ℤ) (h : px ∈ q.prices) : px ∈ q.prices.reverse :=
  List.mem_reverse.mpr h

/-- **The extreme prices.**  After any calls the lowest and the highest price are the least and
    the greatest price with a live order, or their sentinels where there is none, and no end is
    read, exactly when no order was ever added or some order is live. -/
theorem extreme_prices_iff (hrun : run QCoord.call {} calls = some (q, out)) :
    ((∃ p, q.lowestPrice = some p ∧ q.Extreme (· ≤ ·) intMin p) ∧
        ∃ p, q.highestPrice = some p ∧ q.Extreme (· ≥ ·) intMax p) ↔
      (∀ c ∈ calls, ¬ c.IsAdd) ∨ ∃ px m e, q.entry px m = some e := by
  have hsorted : q.prices.Pairwise (· ≤ ·) := List.pairwise_insertionSort _ _
  have hlowest : (∃ p, q.lowestPrice = some p ∧ q.Extreme (· ≤ ·) intMin p) ↔
      q.pxMmidOrd.entries = [] ∨ ∃ px m e, q.entry px m = some e :=
    extreme_iff hsorted (fun p => le_refl p) (fun _ h => h) intMin
  have hreversed : q.prices.reverse.Pairwise (· ≥ ·) := List.pairwise_reverse.mpr hsorted
  have hhighest : (∃ p, q.highestPrice = some p ∧ q.Extreme (· ≥ ·) intMax p) ↔
      q.pxMmidOrd.entries = [] ∨ ∃ px m e, q.entry px m = some e :=
    extreme_iff hreversed (fun p => le_refl p) (mem_prices_reverse q) intMax
  rw [← entries_eq_nil_iff_no_add hrun]
  constructor
  · rintro ⟨hlow, -⟩
    exact hlowest.mp hlow
  · intro h
    exact ⟨hlowest.mpr h, hhighest.mpr h⟩

/-- Two prices with an empty one below them. -/
def emptiedBelowCalls : List Call :=
  [.addOrder 98 5 0 1 20, .addOrder 99 5 1 2 20, .addOrder 101 5 2 3 20,
    .removeOrder 98 5 0 1 false]

theorem extreme_prices_iff_emptied :
    ∃ q, run QCoord.call {} emptiedBelowCalls = some (q, [0]) ∧
      (∃ p, q.lowestPrice = some p ∧ q.Extreme (· ≤ ·) intMin p) ∧
      ∃ p, q.highestPrice = some p ∧ q.Extreme (· ≥ ·) intMax p := by
  have hout : (run QCoord.call {} emptiedBelowCalls).map
      (fun r => (r.2, r.1.entry 99 1)) = some ([0], some ⟨2, 5⟩) := by decide +kernel
  obtain ⟨⟨q, out⟩, hrun, heq⟩ := Option.map_eq_some_iff.mp hout
  obtain ⟨rfl, hentry⟩ := Prod.mk.inj heq
  exact ⟨q, hrun, (extreme_prices_iff hrun).mpr (.inr ⟨99, 1, _, hentry⟩)⟩

/-- After the only order goes, `lowest_price` reads at the end. -/
theorem emptied_queue_reads_end :
    ∃ q, run QCoord.call {} [.addOrder 100 5 0 1 20, .removeOrder 100 5 0 1 false] =
        some (q, [0]) ∧ (∀ px m, q.entry px m = none) ∧ q.lowestPrice = none ∧
      q.highestPrice = none := by
  have hout : (run QCoord.call {} [.addOrder 100 5 0 1 20, .removeOrder 100 5 0 1 false]).map
      (fun r => (r.2, r.1.listed, r.1.lowestPrice, r.1.highestPrice)) =
        some ([0], [], none, none) := by decide +kernel
  obtain ⟨⟨q, out⟩, hrun, heq⟩ := Option.map_eq_some_iff.mp hout
  simp only [Prod.mk.injEq] at heq
  obtain ⟨rfl, hlisted, hlowest, hhighest⟩ := heq
  refine ⟨q, hrun, fun px m => ?_, hlowest, hhighest⟩
  rcases he : q.entry px m with _ | e
  · rfl
  · have hmem := mem_listed_of_entry he
    rw [hlisted] at hmem
    cases hmem

end KasparHft.Light22
