import KasparHft.FillSlateDecision
import Mathlib.Data.List.AList

/-!
# The orders of a transaction

The index of a slate holds the orders that the open transaction lists; the fills of an order are
chained, each to the next one.  So the release of an order releases all its fills, and once the
record of an order has come nothing of the order is held, as long as no trade record names it
after it was deleted.
-/

namespace KasparHft.FillSlate

open Machine AssocMap

variable {Px Pl : Type} {s s' : Slate Px Pl} {samePx : Px → Px → Bool} {d : ASide}
  {o : List (Released Px Pl)}

/-! ### Positions -/

/-- The first position of an order from `k` on. -/
def nextOf (oids : List ℕ) (oid k : ℕ) : Option ℕ :=
  ((oids.drop k).findIdx? fun x => x == oid).map fun j => k + j

theorem nextOf_concat {oids : List ℕ} {k : ℕ} (hk : k ≤ oids.length) (x oid : ℕ) :
    nextOf (oids ++ [x]) oid k =
      (nextOf oids oid k).or (if x = oid then some oids.length else none) := by
  unfold nextOf
  rw [List.drop_append_of_le_length hk, List.findIdx?_append, List.length_drop]
  rcases (oids.drop k).findIdx? (fun x => x == oid) with _ | j
  · by_cases hx : x = oid
    · simp only [List.findIdx?_cons, hx, beq_self_eq_true, if_true, Option.none_or,
        Option.map_some, Option.map_none, Option.some.injEq]
      omega
    · simp [List.findIdx?_cons, hx]
  · rfl

theorem nextOf_eq_none {oids : List ℕ} {oid k : ℕ} :
    nextOf oids oid k = none ↔ ∀ j, k ≤ j → oids[j]? ≠ some oid := by
  unfold nextOf
  rw [Option.map_eq_none_iff, List.findIdx?_eq_none_iff]
  constructor
  · intro h j hj heq
    have hmem : oid ∈ oids.drop k := by
      refine List.mem_of_getElem? (i := j - k) ?_
      rw [List.getElem?_drop, Nat.add_sub_cancel' hj]
      exact heq
    have hfalse := h oid hmem
    rw [beq_self_eq_true] at hfalse
    cases hfalse
  · intro h x hx
    obtain ⟨j, hj⟩ := List.mem_iff_getElem?.mp hx
    rw [List.getElem?_drop] at hj
    refine beq_eq_false_iff_ne.mpr fun heq => ?_
    rw [heq] at hj
    exact h (k + j) (Nat.le_add_right k j) hj

theorem nextOf_eq_some {oids : List ℕ} {oid k i : ℕ} (h : nextOf oids oid k = some i) :
    k ≤ i ∧ oids[i]? = some oid ∧ ∀ j, k ≤ j → j < i → oids[j]? ≠ some oid := by
  obtain ⟨j, hj, rfl⟩ := Option.map_eq_some_iff.mp h
  obtain ⟨hlt, hhit, hbefore⟩ := List.findIdx?_eq_some_iff_getElem.mp hj
  refine ⟨Nat.le_add_right k j, ?_, fun i hki hij heq => ?_⟩
  · rw [← List.getElem?_drop, List.getElem?_eq_getElem hlt, beq_iff_eq.mp hhit]
  · have hi : i - k < j := by omega
    have hmiss := hbefore (i - k) hi
    have hget : (oids.drop k)[i - k]? = some oid := by
      rw [List.getElem?_drop, Nat.add_sub_cancel' hki]
      exact heq
    rw [(List.getElem?_eq_some_iff.mp hget).2, beq_self_eq_true] at hmiss
    exact hmiss rfl

theorem nextOf_end {oids : List ℕ} {k : ℕ} (hk : oids.length ≤ k) (oid : ℕ) :
    nextOf oids oid k = none := by
  refine nextOf_eq_none.mpr fun j hj => ?_
  rw [List.getElem?_eq_none (hk.trans hj)]
  exact nofun

/-! ### The index -/

/-- The orders of the fills. -/
def Slate.oids (s : Slate Px Pl) : List ℕ := s.fills.map fun f => f.oid

/-- The index holds the orders of the fills, and the fills of an order are chained. -/
structure Slate.Indexed (s : Slate Px Pl) : Prop where
  first : ∀ oid, (s.idx.lookup oid).map Ord.first = nextOf s.oids oid 0
  last : ∀ oid o, s.idx.lookup oid = some o →
    s.oids[o.last]? = some oid ∧ nextOf s.oids oid (o.last + 1) = none
  chain : ∀ (i : ℕ) f, s.fills[i]? = some f → f.next = nextOf s.oids f.oid (i + 1)

theorem indexed_new (mode : Release) : (Slate.new mode : Slate Px Pl).Indexed where
  first oid := by
    have hnone : (Slate.new mode : Slate Px Pl).idx.lookup oid = none := AList.lookup_empty oid
    rw [hnone]
    rfl
  last oid o h := by
    have hnone : (Slate.new mode : Slate Px Pl).idx.lookup oid = none := AList.lookup_empty oid
    rw [hnone] at h
    cases h
  chain i f h := by cases h

/-- The slate is used up to its index and the fills, but for the released flags. -/
theorem Slate.Indexed.of_listed (hs : s.Indexed) (hidx : ∀ oid, (s'.idx.lookup oid).map
      (fun o => (o.first, o.last)) = (s.idx.lookup oid).map fun o => (o.first, o.last))
    (hlisted : s'.fills.map Fill.listing = s.fills.map Fill.listing) : s'.Indexed := by
  have hoids : s'.oids = s.oids := by
    have hmap := congrArg (List.map fun x : Trade Px Pl × Option ℕ => x.1.oid) hlisted
    rw [List.map_map, List.map_map] at hmap
    exact hmap
  constructor
  · intro oid
    have hfst := congrArg (Option.map Prod.fst) (hidx oid)
    rw [Option.map_map, Option.map_map] at hfst
    rw [hoids, ← hs.first oid]
    exact hfst
  · intro oid o ho
    have hsome := hidx oid
    rw [ho, Option.map_some] at hsome
    obtain ⟨o', ho', heq⟩ := Option.map_eq_some_iff.mp hsome.symm
    have hlast : o'.last = o.last := congrArg Prod.snd heq
    rw [hoids, ← hlast]
    exact hs.last oid o' ho'
  · intro i f hf
    have hget : (s'.fills.map Fill.listing)[i]? = some f.listing := by
      rw [List.getElem?_map, hf]
      rfl
    rw [hlisted, List.getElem?_map] at hget
    obtain ⟨g, hg, heq⟩ := Option.map_eq_some_iff.mp hget
    have hchain := hs.chain i g hg
    have hnext : g.next = f.next := congrArg Prod.snd heq
    have hoid : g.oid = f.oid := congrArg (fun x => x.1.oid) heq
    rw [hoids, ← hnext, ← hoid]
    exact hchain

theorem ReleasesAs.indexed (h : ReleasesAs d s s' o) (hs : s.Indexed) : s'.Indexed := by
  refine hs.of_listed (fun oid => ?_) h.listed
  rw [of_facts Slate.idx h.facts fun _ => rfl]

/-! ### Each use -/

theorem length_oids (s : Slate Px Pl) : s.oids.length = s.fills.length := List.length_map ..

/-- An order that is not in the index has no fill. -/
theorem Slate.Indexed.of_lookup_none (hs : s.Indexed) {oid : ℕ} (h : s.idx.lookup oid = none)
    (i : ℕ) : s.oids[i]? ≠ some oid := by
  have hfirst := hs.first oid
  rw [h] at hfirst
  exact nextOf_eq_none.mp hfirst.symm i (Nat.zero_le i)

/-- An order that is in the index has a fill. -/
theorem Slate.Indexed.of_lookup_some (hs : s.Indexed) {oid : ℕ} {o : Ord}
    (h : s.idx.lookup oid = some o) : s.oids[o.first]? = some oid ∧
      ∀ j < o.first, s.oids[j]? ≠ some oid := by
  have hfirst := hs.first oid
  rw [h] at hfirst
  obtain ⟨-, hget, hbefore⟩ := nextOf_eq_some hfirst.symm
  exact ⟨hget, fun j hj => hbefore j (Nat.zero_le j) hj⟩

theorem Slate.Indexed.last_lt (hs : s.Indexed) {oid : ℕ} {o : Ord}
    (h : s.idx.lookup oid = some o) : o.last < s.fills.length := by
  rw [← length_oids]
  exact (List.getElem?_eq_some_iff.mp (hs.last oid o h).1).1

/-- The index and the chains behind one more fill, but for its own order. -/
structure Stored (s : Slate Px Pl) (t : Trade Px Pl) (x : Slate Px Pl) : Prop where
  oids : x.oids = s.oids ++ [t.oid]
  other : ∀ oid, oid ≠ t.oid → x.idx.lookup oid = s.idx.lookup oid

theorem Stored.getElem? {x : Slate Px Pl} {t : Trade Px Pl} (h : Stored s t x) {i : ℕ}
    (hi : i < s.fills.length) : x.oids[i]? = s.oids[i]? := by
  rw [h.oids, List.getElem?_append_left (length_oids s ▸ hi)]

theorem Stored.getElem?_length {x : Slate Px Pl} {t : Trade Px Pl} (h : Stored s t x) :
    x.oids[s.fills.length]? = some t.oid := by
  rw [h.oids, ← length_oids]
  exact List.getElem?_concat_length

theorem Stored.nextOf {x : Slate Px Pl} {t : Trade Px Pl} (h : Stored s t x) {k : ℕ}
    (hk : k ≤ s.fills.length) (oid : ℕ) : FillSlate.nextOf x.oids oid k =
      (FillSlate.nextOf s.oids oid k).or (if t.oid = oid then some s.fills.length else none) := by
  rw [h.oids, nextOf_concat (length_oids s ▸ hk), length_oids]

theorem Stored.nextOf_end {x : Slate Px Pl} {t : Trade Px Pl} (h : Stored s t x) (oid : ℕ) :
    FillSlate.nextOf x.oids oid (s.fills.length + 1) = none := by
  refine FillSlate.nextOf_end ?_ oid
  rw [h.oids, List.length_append, length_oids, List.length_singleton]

/-- An index that has the order's new last fill, and chains that reach it. -/
theorem Stored.indexed {x : Slate Px Pl} {t : Trade Px Pl} (h : Stored s t x) (hs : s.Indexed)
    {k : ℕ} {seen : Bool} (hidx : x.idx.lookup t.oid = some ⟨k, s.fills.length, seen⟩)
    (hfirst : FillSlate.nextOf x.oids t.oid 0 = some k)
    (hchain : ∀ (i : ℕ) f, x.fills[i]? = some f → f.next = FillSlate.nextOf x.oids f.oid (i + 1)) :
    x.Indexed where
  first oid := by
    by_cases hoid : oid = t.oid
    · rw [hoid, hidx, hfirst]
      rfl
    · rw [h.other oid hoid, hs.first oid, h.nextOf (Nat.zero_le _), if_neg (Ne.symm hoid),
        Option.or_none]
  last oid o ho := by
    by_cases hoid : oid = t.oid
    · rw [hoid, hidx] at ho
      cases ho
      rw [hoid]
      exact ⟨h.getElem?_length, h.nextOf_end t.oid⟩
    · rw [h.other oid hoid] at ho
      have hlt := hs.last_lt ho
      obtain ⟨hget, hnone⟩ := hs.last oid o ho
      rw [h.getElem? hlt, h.nextOf hlt, hnone, if_neg (Ne.symm hoid)]
      exact ⟨hget, rfl⟩
  chain := hchain

theorem getElem?_oids {i : ℕ} {f : Fill Px Pl} (h : s.fills[i]? = some f) :
    s.oids[i]? = some f.oid := by
  unfold Slate.oids
  rw [List.getElem?_map, h]
  rfl

/-- The first fill of an order is indexed. -/
theorem indexed_listed (hs : s.Indexed) {t : Trade Px Pl} (hnew : s.idx.lookup t.oid = none)
    {x : Slate Px Pl} (hidx : x.idx = s.idx.insert t.oid ⟨s.fills.length, s.fills.length, false⟩)
    (hfills : x.fills = s.fills ++ [Fill.mk t none false]) : x.Indexed := by
  have hstored : Stored s t x := by
    constructor
    · unfold Slate.oids
      rw [hfills, List.map_append]
      rfl
    · intro oid hoid
      rw [hidx, AList.lookup_insert_ne hoid]
  have hnone : nextOf s.oids t.oid 0 = none := by
    rw [← hs.first, hnew]
    rfl
  refine hstored.indexed hs (by rw [hidx, AList.lookup_insert]) ?_ fun i f hf => ?_
  · rw [hstored.nextOf (Nat.zero_le _), hnone, if_pos rfl]
    rfl
  · rw [hfills] at hf
    rcases Nat.lt_or_ge i s.fills.length with hi | hi
    · rw [List.getElem?_append_left hi] at hf
      have hne : t.oid ≠ f.oid := fun heq => hs.of_lookup_none hnew i (heq ▸ getElem?_oids hf)
      rw [hstored.nextOf hi, if_neg hne, Option.or_none]
      exact hs.chain i f hf
    · rw [List.getElem?_append_right hi] at hf
      have hi' : i = s.fills.length := by
        have hlt := (List.getElem?_eq_some_iff.mp hf).1
        rw [List.length_singleton] at hlt
        omega
      subst hi'
      rw [Nat.sub_self] at hf
      cases hf
      exact (hstored.nextOf_end t.oid).symm

/-- A further fill of an order is chained behind its last one. -/
theorem indexed_relisted (hs : s.Indexed) {t : Trade Px Pl} {o : Ord}
    (ho : s.idx.lookup t.oid = some o) {x : Slate Px Pl}
    (hidx : x.idx = s.idx.insert t.oid { o with last := s.fills.length })
    (hfills : x.fills = (s.fills ++ [Fill.mk t none false]).modify o.last
      fun f => { f with next := some s.fills.length }) : x.Indexed := by
  have hlt := hs.last_lt ho
  obtain ⟨hget, hnone⟩ := hs.last t.oid o ho
  have hstored : Stored s t x := by
    constructor
    · have hmap := congrArg (List.map Trade.oid) (toTrade_modify_next
        (s.fills ++ [Fill.mk t none false]) o.last s.fills.length)
      rw [← hfills, List.map_map, List.map_map, List.map_append] at hmap
      exact hmap
    · intro oid hoid
      rw [hidx, AList.lookup_insert_ne hoid]
  have hfirst : nextOf s.oids t.oid 0 = some o.first := by
    rw [← hs.first, ho]
    rfl
  refine hstored.indexed hs (by rw [hidx, AList.lookup_insert]) ?_ fun i f hf => ?_
  · rw [hstored.nextOf (Nat.zero_le _), hfirst]
    rfl
  · rw [hfills, List.getElem?_modify] at hf
    rcases Nat.lt_or_ge i s.fills.length with hi | hi
    · rw [List.getElem?_append_left hi] at hf
      obtain ⟨g, hg, rfl⟩ := Option.map_eq_some_iff.mp hf
      have hgoid := getElem?_oids hg
      split
      next hilast =>
        -- the fill that was the last one
        have hid : t.oid = g.oid := Option.some.inj (hget.symm.trans (hilast ▸ hgoid))
        dsimp only
        rw [hstored.nextOf hi, ← hilast, ← hid, hnone, if_pos rfl]
        rfl
      next hilast =>
        rw [hstored.nextOf hi, hs.chain i g hg]
        by_cases hid : t.oid = g.oid
        · -- an earlier fill of the order has a next one already
          have hilt : i < o.last := by
            by_contra hge
            exact nextOf_eq_none.mp hnone i (by omega) (hid ▸ hgoid)
          rcases hnext : nextOf s.oids g.oid (i + 1) with _ | j
          · exact absurd (hid ▸ hget) (nextOf_eq_none.mp hnext o.last hilt)
          · rfl
        · rw [if_neg hid, Option.or_none]
    · rw [List.getElem?_append_right hi] at hf
      have hi' : i = s.fills.length := by
        obtain ⟨g, hg, -⟩ := Option.map_eq_some_iff.mp hf
        have hsingle := (List.getElem?_eq_some_iff.mp hg).1
        rw [List.length_singleton] at hsingle
        omega
      subst hi'
      have hne : o.last ≠ s.fills.length := by omega
      simp only [hne, if_false, Nat.sub_self] at hf
      cases hf
      exact (hstored.nextOf_end t.oid).symm

theorem oids_of_trades (h : s'.fills.map Fill.toTrade = s.fills.map Fill.toTrade) :
    s'.oids = s.oids := by
  have hmap := congrArg (List.map Trade.oid) h
  rw [List.map_map, List.map_map] at hmap
  exact hmap

theorem indexFill_oids (s : Slate Px Pl) (t : Trade Px Pl) (i : ℕ) :
    ((s.pushFill t).indexFill t i).oids = s.oids ++ [t.oid] := by
  refine (oids_of_trades (indexFill_frame (s.pushFill t) t i).1).trans ?_
  dsimp only [Slate.oids, Slate.pushFill]
  rw [List.map_append]
  rfl

/-- What the index update does to the index and the fills. -/
theorem indexFill_cases (s : Slate Px Pl) (t : Trade Px Pl) :
    (s.idx.lookup t.oid = none ∧
      ((s.pushFill t).indexFill t s.fills.length).idx =
        s.idx.insert t.oid ⟨s.fills.length, s.fills.length, false⟩ ∧
      ((s.pushFill t).indexFill t s.fills.length).fills = s.fills ++ [Fill.mk t none false]) ∨
    ∃ o, s.idx.lookup t.oid = some o ∧
      ((s.pushFill t).indexFill t s.fills.length).idx =
        s.idx.insert t.oid { o with last := s.fills.length } ∧
      ((s.pushFill t).indexFill t s.fills.length).fills =
        (s.fills ++ [Fill.mk t none false]).modify o.last
          fun f => { f with next := some s.fills.length } := by
  unfold Slate.indexFill
  rcases hlookup : (s.pushFill t).idx.lookup t.oid with _ | o
  · left
    dsimp only
    cases t.side <;> exact ⟨hlookup, rfl, rfl⟩
  · exact .inr ⟨o, hlookup, rfl, rfl⟩

/-- The index update marks no record as seen. -/
theorem indexFill_seen (s : Slate Px Pl) (t : Trade Px Pl) {oid : ℕ} {o : Ord}
    (ho : ((s.pushFill t).indexFill t s.fills.length).idx.lookup oid = some o)
    (hseen : o.seen = true) : ∃ o', s.idx.lookup oid = some o' ∧ o'.seen = true := by
  rcases indexFill_cases s t with ⟨-, hidx, -⟩ | ⟨ot, hot, hidx, -⟩
  · rw [hidx] at ho
    by_cases hoid : oid = t.oid
    · rw [hoid, AList.lookup_insert] at ho
      cases ho
      cases hseen
    · rw [AList.lookup_insert_ne hoid] at ho
      exact ⟨o, ho, hseen⟩
  · rw [hidx] at ho
    by_cases hoid : oid = t.oid
    · rw [hoid, AList.lookup_insert] at ho
      cases ho
      exact ⟨ot, hoid ▸ hot, hseen⟩
    · rw [AList.lookup_insert_ne hoid] at ho
      exact ⟨o, ho, hseen⟩

/-- A fill is stored and indexed. -/
theorem indexFill_indexed (hs : s.Indexed) (t : Trade Px Pl) :
    ((s.pushFill t).indexFill t s.fills.length).Indexed := by
  rcases indexFill_cases s t with ⟨hnew, hidx, hfills⟩ | ⟨o, ho, hidx, hfills⟩
  · exact indexed_listed hs hnew hidx hfills
  · exact indexed_relisted hs ho hidx hfills

theorem noted_indexed (hs : s.Indexed) {oid : ℕ} {o : Ord} (ho : s.idx.lookup oid = some o)
    (action : ℕ) (px : Px) : (s.noted samePx oid action px o).Indexed := by
  have hidx := (noted_seen samePx s oid action px o).1
  refine hs.of_listed (fun x => ?_) (by rw [(noted_frame samePx s oid action px o).1])
  rw [hidx]
  by_cases hx : x = oid
  · rw [hx, AList.lookup_insert, ho]
    rfl
  · rw [AList.lookup_insert_ne hx]

/-- `clear` leaves the index empty. -/
theorem lookup_foldl_erase (fs : List (Fill Px Pl)) (idx : Map ℕ Ord) (oid : ℕ) :
    (fs.foldl (fun m (f : Fill Px Pl) => m.erase f.oid) idx).lookup oid =
      if ∃ f ∈ fs, f.oid = oid then none else idx.lookup oid := by
  induction fs generalizing idx with
  | nil => simp
  | cons f fs ih =>
      rw [List.foldl_cons, ih]
      by_cases hf : f.oid = oid
      · have hall : ∃ g ∈ f :: fs, g.oid = oid := ⟨f, List.mem_cons_self, hf⟩
        rw [if_pos hall, ← hf, AList.lookup_erase, ite_self]
      · have hiff : (∃ g ∈ f :: fs, g.oid = oid) ↔ ∃ g ∈ fs, g.oid = oid := by
          simp [hf]
        rw [AList.lookup_erase_ne (Ne.symm hf)]
        simp only [hiff]

theorem clear_indexed (hs : s.Indexed) : s.clear.Indexed := by
  have hnone : ∀ oid, s.clear.idx.lookup oid = none := by
    intro oid
    refine (lookup_foldl_erase s.fills s.idx oid).trans ?_
    split
    next => rfl
    next hno =>
      by_contra hne
      obtain ⟨o, ho⟩ := Option.ne_none_iff_exists'.mp hne
      have hget := (hs.of_lookup_some ho).1
      unfold Slate.oids at hget
      rw [List.getElem?_map] at hget
      obtain ⟨f, hf, hoid⟩ := Option.map_eq_some_iff.mp hget
      exact hno ⟨f, List.mem_of_getElem? hf, hoid⟩
  constructor
  · intro oid
    rw [hnone]
    rfl
  · intro oid o ho
    rw [hnone] at ho
    cases ho
  · intro i f hf
    cases hf

theorem settle_indexed (hs : s.Indexed) : s.settle.Indexed := ⟨hs.first, hs.last, hs.chain⟩

theorem closeTx_indexed (hs : s.Indexed) : s.closeTx.1.Indexed := by
  rw [closeTx_eq]
  have hloop := releaseEach_as (fun f => !f.released) (roleFor_of_facts s) s.fills.length s.settle
    rfl 0
  exact clear_indexed (hloop.indexed (settle_indexed hs))

theorem advance_indexed (hs : s.Indexed) (tx : ℕ) : (s.advance tx).1.Indexed := by
  unfold Slate.advance
  split
  · exact closeTx_indexed hs
  · exact hs

theorem onBook_indexed (hs : s.Indexed) (oid tx action : ℕ) (px : Px) :
    (s.onBook samePx oid tx action px).1.Indexed := by
  rcases hopen : s.txOpen with _ | _
  · rw [onBook_of_closed samePx hopen]
    exact hs
  · by_cases htx : tx = s.tx
    · rcases onBook_cases samePx hopen htx oid action px with ⟨heq, -⟩ | ⟨o, -, ho, -, heq⟩
      · rw [heq]
        exact hs
      · rw [heq]
        exact (decide_as _ _).indexed (settle_indexed (noted_indexed hs ho action px))
    · rw [onBook_of_ne samePx hopen htx]
      exact closeTx_indexed hs

theorem use_indexed (hs : s.Indexed) (u : Use Px Pl) : (s.use samePx u).1.Indexed := by
  cases u with
  | clear => exact clear_indexed hs
  | call c =>
      cases c with
      | advance tx => exact advance_indexed hs tx
      | onTrade t =>
          exact (releaseIfDecided_as _ _ _).indexed (indexFill_indexed (advance_indexed hs t.tx) t)
      | onBook oid tx action px => exact onBook_indexed hs oid tx action px
      | flush => exact closeTx_indexed hs

/-! ### The release of an order -/

/-- Following the chain from a fill of an order releases it and all later fills of the order. -/
theorem releaseOrder_all (n : ℕ) : ∀ (m : Slate Px Pl), m.Indexed → ∀ (i k : ℕ) (f : Fill Px Pl),
    m.fills[i]? = some f → m.fills.length ≤ i + n → i ≤ k → m.oids[k]? = some f.oid →
      (m.releaseOrder .ambiguous n (some i)).1.fills[k]?.map Fill.released = some true := by
  induction n with
  | zero =>
      intro m _ i k f hf hn
      have hlt := (List.getElem?_eq_some_iff.mp hf).1
      omega
  | succ n ih =>
      intro m hm i k f hf hn hik hk
      unfold Slate.releaseOrder
      rw [hf]
      dsimp only
      have hone := releaseOne_order m hf
      set r : FillRole := if m.aside = .unknown then .ambiguous else m.roleFor f
      have hrest := releaseOrder_releases .ambiguous n (m.releaseOne i r).1 f.next
      by_cases heq : i = k
      · -- the fill at `i` is released now, and stays so
        subst heq
        refine hrest.kept i ?_
        unfold Slate.releaseOne
        rw [hf]
        dsimp only
        split
        next hreleased => rw [hf]; exact congrArg some hreleased
        next =>
          rw [List.getElem?_set_self (List.getElem?_eq_some_iff.mp hf).1]
          rfl
      · have hnext := hm.chain i f hf
        rcases hj : nextOf m.oids f.oid (i + 1) with _ | j
        · exact absurd hk (nextOf_eq_none.mp hj k (by omega))
        · obtain ⟨hij, hget, hbefore⟩ := nextOf_eq_some hj
          have hjk : j ≤ k := by
            by_contra hlt
            exact hbefore k (by omega) (by omega) hk
          have hoids : (m.releaseOne i r).1.oids = m.oids := oids_of_trades hone.trades
          have hlen : (m.releaseOne i r).1.fills.length = m.fills.length := by
            rw [← length_oids, hoids, length_oids]
          rw [← hoids] at hget
          unfold Slate.oids at hget
          rw [List.getElem?_map] at hget
          obtain ⟨g, hg, hoid⟩ := Option.map_eq_some_iff.mp hget
          rw [hnext, hj]
          refine ih _ (hone.indexed hm) j k g hg (by omega) hjk ?_
          rw [hoids, hoid]
          exact hk

end KasparHft.FillSlate
