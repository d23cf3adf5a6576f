import KasparHft.Machine
import KasparHft.FillSlate
import Mathlib.Data.List.Perm.Basic
import Mathlib.Data.Multiset.Filter

/-!
# Conservation of fills in the slate

Every fill handed to `on_trade` is released exactly once, and nothing else is
released.  The argument has three layers:

* a release moves one trade from the unreleased part of `fills` to the output
  (`Releases`), and every loop of the source is a sequence of releases;
* a call keeps `Slate.Inv` and balances what was given against what was released
  (`Balanced`), with one lemma for each call;
* `Machine.run_induction` carries the balance over a whole run.
-/

namespace KasparHft.FillSlate

open Machine

variable {Px Pl : Type}

/-! ### What is given, held and released -/

/-- A stored fill's trade, unless it has been released. -/
def Fill.pending (f : Fill Px Pl) : Option (Trade Px Pl) :=
  if f.released then none else some f.toTrade

/-- The trades of a slate that have not been released. -/
def Slate.unreleased (s : Slate Px Pl) : Multiset (Trade Px Pl) :=
  (s.fills.filterMap Fill.pending : List (Trade Px Pl))

/-- The trades the callback was called with. -/
def released (o : List (Released Px Pl)) : Multiset (Trade Px Pl) :=
  (o.map fun r => r.fill.toTrade : List (Trade Px Pl))

@[simp] theorem released_nil : released ([] : List (Released Px Pl)) = 0 := rfl

@[simp] theorem released_append (o₁ o₂ : List (Released Px Pl)) :
    released (o₁ ++ o₂) = released o₁ + released o₂ := by
  simp [released]

/-- The trade a call hands in. -/
def Call.trade : Call Px Pl → Option (Trade Px Pl)
  | .onTrade t => some t
  | _ => none

/-- The transaction time a call carries. -/
def Call.tx : Call Px Pl → Option ℕ
  | .advance tx => some tx
  | .onTrade t => some t.tx
  | .onBook _ tx _ _ => some tx
  | .flush => none

/-- The trades handed to `on_trade` by a list of calls. -/
def given (cs : List (Call Px Pl)) : Multiset (Trade Px Pl) :=
  (cs.filterMap Call.trade : List (Trade Px Pl))

@[simp] theorem given_nil : given ([] : List (Call Px Pl)) = 0 := rfl

@[simp] theorem given_append (cs ds : List (Call Px Pl)) :
    given (cs ++ ds) = given cs + given ds := by
  simp [given]

/-- The slate as a machine: a call never fails. -/
def step (samePx : Px → Px → Bool) (s : Slate Px Pl) (c : Call Px Pl) :
    Option (Slate Px Pl × List (Released Px Pl)) :=
  some (s.call samePx c)

/-! ### Releasing moves fills from the slate to the output -/

/-- `s'` is `s` after releasing the fills of `o`: the stored trades stay as they are,
    a released fill stays released, and what left the unreleased part went out. -/
structure Releases (s s' : Slate Px Pl) (o : List (Released Px Pl)) : Prop where
  trades : s'.fills.map Fill.toTrade = s.fills.map Fill.toTrade
  kept : ∀ k : ℕ, s.fills[k]?.map Fill.released = some true →
    s'.fills[k]?.map Fill.released = some true
  moved : s.unreleased = released o + s'.unreleased
  size : s.held = s.unreleased.card → s'.held = s'.unreleased.card
  tx : s'.tx = s.tx
  txOpen : s'.txOpen = s.txOpen

theorem Releases.refl (s : Slate Px Pl) : Releases s s [] where
  trades := rfl
  kept _ h := h
  moved := by simp
  size h := h
  tx := rfl
  txOpen := rfl

theorem Releases.trans {s₁ s₂ s₃ : Slate Px Pl} {o₁ o₂ : List (Released Px Pl)}
    (h₁ : Releases s₁ s₂ o₁) (h₂ : Releases s₂ s₃ o₂) : Releases s₁ s₃ (o₁ ++ o₂) where
  trades := h₂.trades.trans h₁.trades
  kept k hk := h₂.kept k (h₁.kept k hk)
  moved := by rw [h₁.moved, h₂.moved, released_append, Multiset.add_assoc]
  size h := h₂.size (h₁.size h)
  tx := h₂.tx.trans h₁.tx
  txOpen := h₂.txOpen.trans h₁.txOpen

theorem Releases.length_eq {s s' : Slate Px Pl} {o : List (Released Px Pl)}
    (h : Releases s s' o) : s'.fills.length = s.fills.length := by
  simpa using congrArg List.length h.trades

/-- A change of the transaction facts alone releases nothing. -/
theorem Releases.ofFrame {s s' : Slate Px Pl} (hfills : s'.fills = s.fills)
    (hheld : s'.held = s.held) (htx : s'.tx = s.tx) (hopen : s'.txOpen = s.txOpen) :
    Releases s s' [] where
  trades := by rw [hfills]
  kept k hk := by rw [hfills]; exact hk
  moved := by simp [Slate.unreleased, hfills]
  size h := by simpa [Slate.unreleased, hfills, hheld] using h
  tx := htx
  txOpen := hopen

theorem Slate.count_fills (s : Slate Px Pl) (r : FillRole) :
    (s.count r).fills = s.fills ∧ (s.count r).held = s.held ∧ (s.count r).tx = s.tx ∧
      (s.count r).txOpen = s.txOpen := by
  cases r <;> exact ⟨rfl, rfl, rfl, rfl⟩

/-- Marking the unreleased fill at `i` takes exactly its trade out of the pending ones. -/
theorem pending_set {fs : List (Fill Px Pl)} {i : ℕ} {f : Fill Px Pl} (hi : fs[i]? = some f)
    (hf : f.released = false) :
    ((fs.filterMap Fill.pending : List (Trade Px Pl)) : Multiset (Trade Px Pl)) =
      {f.toTrade} + ((fs.set i { f with released := true }).filterMap Fill.pending :
        List (Trade Px Pl)) := by
  obtain ⟨hlt, hget⟩ := List.getElem?_eq_some_iff.mp hi
  have hbefore : (fs[i] :: fs.eraseIdx i).Perm fs := List.getElem_cons_eraseIdx_perm hlt
  have hafter := List.set_perm_cons_eraseIdx hlt { f with released := true }
  have h₁ := (hbefore.filterMap Fill.pending).symm
  have h₂ := hafter.filterMap Fill.pending
  rw [List.filterMap_cons, hget, show f.pending = some f.toTrade by simp [Fill.pending, hf]] at h₁
  rw [List.filterMap_cons, show Fill.pending { f with released := true } = none from rfl] at h₂
  rw [Multiset.singleton_add, Multiset.cons_coe, Multiset.coe_eq_coe]
  exact h₁.trans (h₂.symm.cons _)

theorem releaseOne_releases (s : Slate Px Pl) (i : ℕ) (r : FillRole) :
    Releases s (s.releaseOne i r).1 (s.releaseOne i r).2 := by
  unfold Slate.releaseOne
  rcases hi : s.fills[i]? with _ | f
  · exact Releases.refl s
  · by_cases hf : f.released = true
    · simp only [hf, if_true]
      exact Releases.refl s
    · have hfalse : f.released = false := by simpa using hf
      obtain ⟨-, -, htx, hopen⟩ := s.count_fills r
      obtain ⟨hlt, hget⟩ := List.getElem?_eq_some_iff.mp hi
      have hmoved := pending_set hi hfalse
      simp only [hfalse, Bool.false_eq_true, if_false]
      refine ⟨?_, ?_, ?_, ?_, htx, hopen⟩
      · -- the trade written back at `i` is the one that was there
        refine List.ext_getElem? fun k => ?_
        by_cases hki : i = k
        · subst hki
          simp [hlt, hget]
        · simp [hki]
      · intro k hk
        by_cases hki : i = k
        · subst hki
          simp [hlt]
        · simpa [List.getElem?_set, hki] using hk
      · exact hmoved
      · intro hsize
        have hcard := congrArg Multiset.card hmoved
        simp only [Slate.unreleased, Multiset.card_add, Multiset.card_singleton]
          at hsize hcard ⊢
        omega

theorem releaseEach_releases (cond : Fill Px Pl → Bool)
    (role : Slate Px Pl → Fill Px Pl → FillRole) (n : ℕ) : ∀ (s : Slate Px Pl) (i : ℕ),
    Releases s (s.releaseEach cond role i n).1 (s.releaseEach cond role i n).2 := by
  induction n with
  | zero => intro s i; exact Releases.refl s
  | succ n ih =>
      intro s i
      unfold Slate.releaseEach
      rcases hi : s.fills[i]? with _ | f
      · exact Releases.refl s
      · by_cases hc : cond f = true
        · simp only [hc, if_true]
          exact (releaseOne_releases s i _).trans (ih _ _)
        · simp only [hc]
          exact (Releases.refl s).trans (ih s _)

theorem releaseOrder_releases (undecided : FillRole) (n : ℕ) :
    ∀ (s : Slate Px Pl) (i : Option ℕ),
    Releases s (s.releaseOrder undecided n i).1 (s.releaseOrder undecided n i).2 := by
  induction n with
  | zero => intro s i; exact Releases.refl s
  | succ n ih =>
      intro s i
      unfold Slate.releaseOrder
      rcases i with _ | i
      · exact Releases.refl s
      · rcases hi : s.fills[i]? with _ | f
        · simp only [hi]
          exact Releases.refl s
        · simp only [hi]
          exact (releaseOne_releases s i _).trans (ih _ _)

/-- The loop over all unreleased fills leaves none behind in the range it covers. -/
theorem releaseEach_all (role : Slate Px Pl → Fill Px Pl → FillRole) (n : ℕ) :
    ∀ (s : Slate Px Pl) (i k : ℕ), i ≤ k → k < i + n → k < s.fills.length →
      (s.releaseEach (fun f => !f.released) role i n).1.fills[k]?.map Fill.released =
        some true := by
  induction n with
  | zero => intro s i k hik hkn _; omega
  | succ n ih =>
      intro s i k hik hkn hlen
      unfold Slate.releaseEach
      have hlt : i < s.fills.length := by omega
      simp only [List.getElem?_eq_getElem hlt]
      -- the fill at `i` is released by the first step, and stays so in the rest
      set r : Slate Px Pl × List (Released Px Pl) :=
        if (!s.fills[i].released) = true then s.releaseOne i (role s s.fills[i]) else (s, [])
        with hr
      have hrel : Releases s r.1 r.2 := by
        by_cases hf : s.fills[i].released = true
        · simp only [hr, hf]
          exact Releases.refl s
        · simp only [hr, hf]
          exact releaseOne_releases s i _
      by_cases hki : k = i
      · subst hki
        refine (releaseEach_releases _ role n r.1 (k + 1)).kept k ?_
        by_cases hf : s.fills[k].released = true
        · simp [hr, hf, hlt]
        · have hi : s.fills[k]? = some s.fills[k] := List.getElem?_eq_getElem hlt
          simp [hr, hf, Slate.releaseOne, hlt]
      · exact ih r.1 (i + 1) k (by omega) (by omega) (by rw [hrel.length_eq]; exact hlen)

/-! ### The invariant of a slate -/

/-- Between calls: `held` counts the unreleased fills, every stored fill belongs to the
    open transaction, and there is none while no transaction is open. -/
structure Slate.Inv (s : Slate Px Pl) : Prop where
  size : s.held = s.unreleased.card
  tx : ∀ f ∈ s.fills, f.tx = s.tx
  closed : s.txOpen = false → s.fills = []

theorem inv_new (mode : Release) : (Slate.new mode : Slate Px Pl).Inv where
  size := rfl
  tx f hf := by simp [Slate.new] at hf
  closed _ := rfl

theorem unreleased_of_fills_nil {s : Slate Px Pl} (h : s.fills = []) : s.unreleased = 0 := by
  simp [Slate.unreleased, h]

theorem Releases.inv {s s' : Slate Px Pl} {o : List (Released Px Pl)} (h : Releases s s' o)
    (hs : s.Inv) : s'.Inv where
  size := h.size hs.size
  tx f hf := by
    have hmem : f.toTrade ∈ s.fills.map Fill.toTrade := by
      rw [← h.trades]
      exact List.mem_map_of_mem hf
    obtain ⟨g, hg, hgf⟩ := List.mem_map.mp hmem
    rw [h.tx, ← hs.tx g hg, hgf]
  closed hopen := by
    have hnil := hs.closed (h.txOpen.symm.trans hopen)
    exact List.length_eq_zero_iff.mp (by rw [h.length_eq, hnil]; rfl)

/-- What a call does to the balance: the invariant is kept, and the fills held before it
    together with the fills it was given are those released and those held after it. -/
structure Balanced (s : Slate Px Pl) (added : Multiset (Trade Px Pl)) (s' : Slate Px Pl)
    (o : List (Released Px Pl)) : Prop where
  inv : s'.Inv
  moved : s.unreleased + added = released o + s'.unreleased

theorem Releases.balanced {s s' : Slate Px Pl} {o : List (Released Px Pl)}
    (h : Releases s s' o) (hs : s.Inv) : Balanced s 0 s' o where
  inv := h.inv hs
  moved := by rw [Multiset.add_zero, h.moved]

theorem Balanced.trans {s₁ s₂ s₃ : Slate Px Pl} {a₁ a₂ : Multiset (Trade Px Pl)}
    {o₁ o₂ : List (Released Px Pl)} (h₁ : Balanced s₁ a₁ s₂ o₁) (h₂ : Balanced s₂ a₂ s₃ o₂) :
    Balanced s₁ (a₁ + a₂) s₃ (o₁ ++ o₂) where
  inv := h₂.inv
  moved := by
    rw [← Multiset.add_assoc, h₁.moved, Multiset.add_assoc, h₂.moved, released_append,
      Multiset.add_assoc]

/-- What holds of every fill held and given holds of every fill released and held after. -/
theorem Balanced.forall {s s' : Slate Px Pl} {added : Multiset (Trade Px Pl)}
    {o : List (Released Px Pl)} {P : Trade Px Pl → Prop} (h : Balanced s added s' o)
    (hs : ∀ t ∈ s.unreleased, P t) (hadded : ∀ t ∈ added, P t) :
    (∀ t ∈ s'.unreleased, P t) ∧ ∀ f ∈ o, P f.fill.toTrade := by
  have hall : ∀ t ∈ released o + s'.unreleased, P t := by
    intro t ht
    rw [← h.moved] at ht
    exact (Multiset.mem_add.mp ht).elim (hs t) (hadded t)
  refine ⟨fun t ht => hall t (Multiset.mem_add.mpr (.inr ht)), ?_⟩
  intro f hf
  have hmem : f.fill.toTrade ∈ released o :=
    Multiset.mem_coe.mpr (List.mem_map.mpr ⟨f, hf, rfl⟩)
  exact hall _ (Multiset.mem_add.mpr (.inl hmem))

/-! ### One lemma for each call -/

@[simp] theorem clear_fills (s : Slate Px Pl) : s.clear.fills = [] := rfl

theorem clear_inv (s : Slate Px Pl) : s.clear.Inv where
  size := rfl
  tx f hf := by simp at hf
  closed _ := rfl

/-- `close_tx` releases everything that is held. -/
theorem closeTx_balanced (s : Slate Px Pl) :
    Balanced s 0 s.closeTx.1 s.closeTx.2 ∧ s.closeTx.1.fills = [] := by
  set s₁ : Slate Px Pl := if s.aside = .unknown then { s with aside := s.computeSide } else s
    with hs₁
  have hframe : Releases s s₁ [] := by
    by_cases ha : s.aside = .unknown
    · simp only [hs₁, ha, if_true]
      exact Releases.ofFrame rfl rfl rfl rfl
    · simp only [hs₁, ha, if_false]
      exact Releases.refl s
  have hloop := releaseEach_releases (fun f => !f.released) Slate.roleFor s₁.fills.length s₁ 0
  set r := s₁.releaseEach (fun f => !f.released) Slate.roleFor 0 s₁.fills.length with hr
  have hnone : r.1.unreleased = 0 := by
    have hnil : r.1.fills.filterMap Fill.pending = [] := by
      refine List.filterMap_eq_nil_iff.mpr fun f hf => ?_
      obtain ⟨k, hk, rfl⟩ := List.mem_iff_getElem.mp hf
      have hall := releaseEach_all Slate.roleFor s₁.fills.length s₁ 0 k (Nat.zero_le k)
        (by rw [← hloop.length_eq]; omega) (by rw [← hloop.length_eq]; exact hk)
      rw [← hr, List.getElem?_eq_getElem hk] at hall
      simp only [Option.map_some, Option.some.injEq] at hall
      simp [Fill.pending, hall]
    simp [Slate.unreleased, hnil]
  have hmoved := (hframe.trans hloop).moved
  have hclose : s.closeTx = (r.1.clear, r.2) := rfl
  rw [hclose]
  refine ⟨⟨clear_inv r.1, ?_⟩, rfl⟩
  rw [Multiset.add_zero, hmoved, hnone, unreleased_of_fills_nil (clear_fills r.1)]
  rfl

/-- After `advance tx` nothing of another transaction is left. -/
theorem advance_balanced {s : Slate Px Pl} (hs : s.Inv) (tx : ℕ) :
    Balanced s 0 (s.advance tx).1 (s.advance tx).2 ∧
      ∀ f ∈ (s.advance tx).1.fills, f.tx = tx := by
  unfold Slate.advance
  by_cases h : s.txOpen = true ∧ tx ≠ s.tx
  · rw [if_pos h]
    obtain ⟨hbal, hnil⟩ := closeTx_balanced s
    exact ⟨hbal, fun f hf => by rw [hnil] at hf; cases hf⟩
  · rw [if_neg h]
    refine ⟨(Releases.refl s).balanced hs, fun f hf => ?_⟩
    rcases hopen : s.txOpen with _ | _
    · rw [hs.closed hopen] at hf
      cases hf
    · have htx : tx = s.tx := not_not.mp fun hne => h ⟨hopen, hne⟩
      rw [htx, hs.tx f hf]

/-- A transaction still open after `advance tx` is that of `tx`. -/
theorem advance_tx (s : Slate Px Pl) (tx : ℕ) :
    (s.advance tx).1.txOpen = true → (s.advance tx).1.tx = tx := by
  unfold Slate.advance
  by_cases h : s.txOpen = true ∧ tx ≠ s.tx
  · rw [if_pos h]
    intro hopen
    cases hopen
  · rw [if_neg h]
    intro hopen
    exact (not_not.mp fun hne => h ⟨hopen, hne⟩).symm

/-- Chaining a fill behind another leaves trades and released flags alone. -/
theorem pending_modify_next (fs : List (Fill Px Pl)) (i j : ℕ) :
    (fs.modify i fun f => { f with next := some j }).filterMap Fill.pending =
      fs.filterMap Fill.pending := by
  induction fs generalizing i with
  | nil => simp
  | cons f fs ih =>
      cases i with
      | zero => simp [List.filterMap_cons, Fill.pending]
      | succ i => simp only [List.modify_succ_cons, List.filterMap_cons, ih]

theorem toTrade_modify_next (fs : List (Fill Px Pl)) (i j : ℕ) :
    (fs.modify i fun f => { f with next := some j }).map Fill.toTrade =
      fs.map Fill.toTrade := by
  induction fs generalizing i with
  | nil => simp
  | cons f fs ih =>
      cases i with
      | zero => simp
      | succ i => simp only [List.modify_succ_cons, List.map_cons, ih]

/-- The index update keeps the stored trades and what is pending. -/
theorem indexFill_frame (s : Slate Px Pl) (t : Trade Px Pl) (i : ℕ) :
    (s.indexFill t i).fills.map Fill.toTrade = s.fills.map Fill.toTrade ∧
      (s.indexFill t i).unreleased = s.unreleased ∧ (s.indexFill t i).held = s.held ∧
      (s.indexFill t i).tx = s.tx ∧ (s.indexFill t i).txOpen = s.txOpen := by
  unfold Slate.indexFill
  rcases s.idx.lookup t.oid with _ | o
  · cases t.side <;> exact ⟨rfl, rfl, rfl, rfl, rfl⟩
  · refine ⟨toTrade_modify_next _ _ _, ?_, rfl, rfl, rfl⟩
    simp only [Slate.unreleased, pending_modify_next]

/-- Storing a fill of the open transaction. -/
theorem pushFill_balanced {s : Slate Px Pl} (hs : s.Inv) (t : Trade Px Pl)
    (htx : ∀ f ∈ s.fills, f.tx = t.tx) (hopen : s.txOpen = true → s.tx = t.tx) (i : ℕ) :
    Balanced s {t} ((s.pushFill t).indexFill t i) [] ∧
      ((s.pushFill t).indexFill t i).tx = t.tx := by
  obtain ⟨htrades, hunrel, hheld, htx', hopen'⟩ := indexFill_frame (s.pushFill t) t i
  have hpushtx : (s.pushFill t).tx = t.tx := by
    simp only [Slate.pushFill]
    split
    · exact hopen ‹_›
    · rfl
  have hpush : (s.pushFill t).unreleased = s.unreleased + {t} := by
    simp [Slate.pushFill, Slate.unreleased, Fill.pending, ← Multiset.coe_add]
  refine ⟨⟨⟨?_, ?_, ?_⟩, ?_⟩, htx'.trans hpushtx⟩
  · rw [hheld, hunrel, hpush, Multiset.card_add, ← hs.size]
    rfl
  · intro f hf
    have hmem : f.toTrade ∈ (s.pushFill t).fills.map Fill.toTrade := by
      rw [← htrades]
      exact List.mem_map_of_mem hf
    simp only [Slate.pushFill, List.map_append, List.mem_append, List.mem_map,
      List.mem_singleton, List.map_cons, List.map_nil] at hmem
    rw [htx', hpushtx]
    rcases hmem with ⟨g, hg, hgf⟩ | hft
    · rw [← hgf]
      exact htx g hg
    · rw [hft]
  · rw [hopen']
    intro h
    cases h
  · rw [hunrel, hpush, released_nil, Multiset.zero_add]

theorem releaseIfDecided_releases (s : Slate Px Pl) (oid i : ℕ) :
    Releases s (s.releaseIfDecided oid i).1 (s.releaseIfDecided oid i).2 := by
  unfold Slate.releaseIfDecided
  split
  · split
    · exact releaseOne_releases s i _
    · exact Releases.refl s
  · exact Releases.refl s

theorem onTrade_balanced {s : Slate Px Pl} (hs : s.Inv) (t : Trade Px Pl) :
    Balanced s {t} (s.onTrade t).1 (s.onTrade t).2 ∧
      ∀ f ∈ (s.onTrade t).1.fills, f.tx = t.tx := by
  obtain ⟨hadv, htx⟩ := advance_balanced hs t.tx
  obtain ⟨hpush, hstx⟩ := pushFill_balanced hadv.inv t htx (advance_tx s t.tx)
    (s.advance t.tx).1.fills.length
  have hrel := releaseIfDecided_releases
    (((s.advance t.tx).1.pushFill t).indexFill t (s.advance t.tx).1.fills.length) t.oid
    (s.advance t.tx).1.fills.length
  have hout := (hadv.trans hpush).trans (hrel.balanced hpush.inv)
  rw [Multiset.zero_add, Multiset.add_zero, List.append_nil] at hout
  exact ⟨hout, fun f hf => by rw [hout.inv.tx f hf, hrel.tx, hstx]⟩

theorem decide_releases (s : Slate Px Pl) (o : Ord) :
    Releases s (s.decide o).1 (s.decide o).2 := by
  unfold Slate.decide
  have hframe : Releases s { s with aside := s.computeSide } [] :=
    Releases.ofFrame rfl rfl rfl rfl
  split
  · simp only
    split
    · exact hframe.trans (releaseEach_releases _ _ _ _ _)
    · split
      · exact hframe.trans (releaseOrder_releases _ _ _ _)
      · split
        · exact hframe.trans (releaseEach_releases _ _ _ _ _)
        · exact hframe
  · split
    · exact releaseOrder_releases _ _ _ _
    · exact Releases.refl s

/-- A record of a listed order is noted: it is the order's own. -/
def Slate.noted (samePx : Px → Px → Bool) (s : Slate Px Pl) (oid action : ℕ) (px : Px) (o : Ord) :
    Slate Px Pl :=
  let s₁ := { s with
    idx := s.idx.insert oid { o with seen := true }, seenOrders := s.seenOrders + 1 }
  match s.fills[o.first]? with
  | none => s₁
  | some first =>
      if action = 1 then
        if samePx px first.px then { s₁ with keptSide := some first.side }
        else { s₁ with movedSide := some first.side }
      else s₁

/-- **What a record of the open transaction does**: nothing, unless it is the first Change or
    Delete of an order that is listed. -/
theorem onBook_cases {s : Slate Px Pl} (samePx : Px → Px → Bool) (hopen : s.txOpen = true) {tx : ℕ}
    (htx : tx = s.tx) (oid action : ℕ) (px : Px) :
    (s.onBook samePx oid tx action px = (s, []) ∧
      ((action ≠ 1 ∧ action ≠ 2) ∨ s.idx.lookup oid = none ∨
        ∃ o, s.idx.lookup oid = some o ∧ o.seen = true)) ∨
    ∃ o, (action = 1 ∨ action = 2) ∧ s.idx.lookup oid = some o ∧ o.seen = false ∧
      s.onBook samePx oid tx action px =
        (s.noted samePx oid action px o).decide { o with seen := true } := by
  have hclosed : ¬ s.txOpen = false := by
    rw [hopen]
    decide
  unfold Slate.onBook
  rw [if_neg hclosed, if_neg (not_not_intro htx)]
  by_cases haction : action ≠ 1 ∧ action ≠ 2
  · rw [if_pos haction]
    exact .inl ⟨rfl, .inl haction⟩
  rw [if_neg haction]
  rcases hlookup : s.idx.lookup oid with _ | ⟨first, last, seen⟩
  · exact .inl ⟨rfl, .inr (.inl rfl)⟩
  · rcases seen with _ | _
    · refine .inr ⟨_, ?_, rfl, rfl, ?_⟩
      · by_contra hne
        exact haction ⟨fun h => hne (.inl h), fun h => hne (.inr h)⟩
      · rfl
    · exact .inl ⟨rfl, .inr (.inr ⟨_, rfl, rfl⟩)⟩

theorem noted_eq (samePx : Px → Px → Bool) (s : Slate Px Pl) (oid action : ℕ) (px : Px) (o : Ord) :
    ∃ kept moved, s.noted samePx oid action px o =
      { s with
        idx := s.idx.insert oid { o with seen := true }, seenOrders := s.seenOrders + 1
        keptSide := kept, movedSide := moved } := by
  unfold Slate.noted
  rcases s.fills[o.first]? with _ | f
  · exact ⟨_, _, rfl⟩
  · dsimp only
    split
    · split <;> exact ⟨_, _, rfl⟩
    · exact ⟨_, _, rfl⟩

/-- A record of the open transaction only releases. -/
theorem onBook_releases {s : Slate Px Pl} (samePx : Px → Px → Bool) {oid tx action : ℕ} {px : Px}
    (hopen : s.txOpen = true) (htx : tx = s.tx) :
    Releases s (s.onBook samePx oid tx action px).1 (s.onBook samePx oid tx action px).2 := by
  rcases onBook_cases samePx hopen htx oid action px with ⟨heq, -⟩ | ⟨o, -, -, -, heq⟩
  · rw [heq]
    exact Releases.refl s
  · obtain ⟨kept, moved, hnoted⟩ := noted_eq samePx s oid action px o
    rw [heq, hnoted]
    refine Releases.trans (show Releases s _ [] from ?_) (decide_releases _ _)
    exact Releases.ofFrame rfl rfl rfl rfl

theorem onBook_of_closed {s : Slate Px Pl} (samePx : Px → Px → Bool) (h : s.txOpen = false)
    (oid tx action : ℕ) (px : Px) : s.onBook samePx oid tx action px = (s, []) := if_pos h

theorem onBook_of_ne {s : Slate Px Pl} (samePx : Px → Px → Bool) (hopen : s.txOpen = true) {tx : ℕ}
    (htx : tx ≠ s.tx) (oid action : ℕ) (px : Px) :
    s.onBook samePx oid tx action px = s.closeTx := by
  unfold Slate.onBook
  rw [hopen, if_neg (by decide), if_pos htx]

theorem onBook_balanced {s : Slate Px Pl} (hs : s.Inv) (samePx : Px → Px → Bool)
    (oid tx action : ℕ) (px : Px) :
    Balanced s 0 (s.onBook samePx oid tx action px).1 (s.onBook samePx oid tx action px).2 ∧
      ∀ f ∈ (s.onBook samePx oid tx action px).1.fills, f.tx = tx := by
  rcases hopen : s.txOpen with _ | _
  · rw [onBook_of_closed samePx hopen]
    exact ⟨(Releases.refl s).balanced hs, fun f hf => by rw [hs.closed hopen] at hf; cases hf⟩
  · by_cases htx : tx = s.tx
    · -- a release that leaves the transaction open keeps its fills in it
      have hrel := @onBook_releases Px Pl s samePx oid tx action px hopen htx
      exact ⟨hrel.balanced hs, fun f hf => by rw [(hrel.inv hs).tx f hf, hrel.tx, htx]⟩
    · rw [onBook_of_ne samePx hopen htx]
      obtain ⟨hbal, hnil⟩ := closeTx_balanced s
      exact ⟨hbal, fun f hf => by rw [hnil] at hf; cases hf⟩

/-- **One call.**  It keeps the invariant and the balance, leaves no fill of another
    transaction than the one it names, and a flush leaves none at all. -/
theorem call_balanced {s : Slate Px Pl} (hs : s.Inv) (samePx : Px → Px → Bool)
    (c : Call Px Pl) :
    Balanced s (given [c]) (s.call samePx c).1 (s.call samePx c).2 ∧
      (∀ tx, c.tx = some tx → ∀ f ∈ (s.call samePx c).1.fills, f.tx = tx) ∧
      (c = .flush → (s.call samePx c).1.fills = []) := by
  cases c with
  | advance tx =>
      obtain ⟨hbal, htx⟩ := advance_balanced hs tx
      exact ⟨hbal, fun tx' h => by cases h; exact htx, fun h => by cases h⟩
  | onTrade t =>
      obtain ⟨hbal, htx⟩ := onTrade_balanced hs t
      exact ⟨hbal, fun tx' h => by cases h; exact htx, fun h => by cases h⟩
  | onBook oid tx action px =>
      obtain ⟨hbal, htx⟩ := onBook_balanced hs samePx oid tx action px
      exact ⟨hbal, fun tx' h => by cases h; exact htx, fun h => by cases h⟩
  | flush =>
      obtain ⟨hbal, hnil⟩ := closeTx_balanced s
      exact ⟨hbal, fun tx' h => by simp [Call.tx] at h, fun _ => hnil⟩

/-! ### Runs -/

section Runs

variable (samePx : Px → Px → Bool)

/-- What holds after a run from a fresh slate: the invariant, and that the fills given are
    those released and those still held. -/
def Accounted (cs : List (Call Px Pl)) (out : List (Released Px Pl)) (s : Slate Px Pl) :
    Prop :=
  s.Inv ∧ given cs = released out + s.unreleased

theorem run_accounted {mode : Release} {cs : List (Call Px Pl)} {s : Slate Px Pl}
    {out : List (Released Px Pl)} (hrun : run (step samePx) (Slate.new mode) cs = some (s, out)) :
    Accounted cs out s := by
  refine run_invariant (I := Accounted) ⟨inv_new mode, by rw [given_nil]; rfl⟩ ?_ hrun
  intro es os m c m' o ⟨hinv, hacc⟩ hs
  obtain ⟨hbal, -, -⟩ := call_balanced hinv samePx c
  simp only [step, Option.some.injEq] at hs
  rw [hs] at hbal
  refine ⟨hbal.inv, ?_⟩
  rw [given_append, hacc, Multiset.add_assoc, hbal.moved, released_append, Multiset.add_assoc]

theorem exists_step_run (s : Slate Px Pl) (cs : List (Call Px Pl)) :
    ∃ t out, run (step samePx) s cs = some (t, out) :=
  exists_run (fun s c => ⟨s.call samePx c, rfl⟩) s cs

/-- After a call that carries a transaction time, what is still held carries the same. -/
theorem held_tx_of_run {mode : Release} {cs : List (Call Px Pl)} {c : Call Px Pl} {tx : ℕ}
    {s : Slate Px Pl} {out : List (Released Px Pl)} (hc : c.tx = some tx)
    (hrun : run (step samePx) (Slate.new mode) (cs ++ [c]) = some (s, out)) :
    ∀ t ∈ s.unreleased, t.tx = tx := by
  obtain ⟨m, o₁, o₂, h₁, h₂, -⟩ := run_concat.mp hrun
  obtain ⟨-, htx, -⟩ := call_balanced (run_accounted samePx h₁).1 samePx c
  simp only [step, Option.some.injEq] at h₂
  rw [h₂] at htx
  intro t ht
  obtain ⟨f, hf, hft⟩ := List.mem_filterMap.mp (Multiset.mem_coe.mp ht)
  have hft' : f.toTrade = t := by
    unfold Fill.pending at hft
    split at hft
    · cases hft
    · exact Option.some.inj hft
  rw [← hft']
  exact htx tx hc f hf

/-- **Every fill goes out exactly once.**  For either release mode and every sequence of
    calls:
    * the fills given are those released and some that are still held, and `size()` counts
      the latter;
    * if the sequence ends with a flush, the fills released are those given;
    * once a call carrying `tx` has returned, every fill given so far with another time has
      been released, and whatever is released later with another time was given later. -/
theorem releases_each_fill_once (mode : Release) (cs : List (Call Px Pl)) :
    ∃ s out, run (step samePx) (Slate.new mode) cs = some (s, out) ∧
      (∃ held : Multiset (Trade Px Pl), given cs = released out + held ∧
        s.held = held.card) ∧
      (cs.getLast? = some .flush → released out = given cs) ∧
      ∀ before c after tx, cs = before ++ [c] ++ after → c.tx = some tx →
        ∃ m o₁ o₂, run (step samePx) (Slate.new mode) (before ++ [c]) = some (m, o₁) ∧
          run (step samePx) m after = some (s, o₂) ∧ out = o₁ ++ o₂ ∧
          (released o₁).filter (fun t => t.tx ≠ tx) =
            (given (before ++ [c])).filter (fun t => t.tx ≠ tx) ∧
          (released o₂).filter (fun t => t.tx ≠ tx) ≤
            (given after).filter (fun t => t.tx ≠ tx) := by
  obtain ⟨s, out, hrun⟩ := exists_step_run samePx (Slate.new mode) cs
  obtain ⟨hinv, hacc⟩ := run_accounted samePx hrun
  refine ⟨s, out, hrun, ⟨s.unreleased, hacc, hinv.size⟩, ?_, ?_⟩
  · intro hlast
    obtain ⟨ds, rfl⟩ : ∃ ds, cs = ds ++ [.flush] := List.getLast?_eq_some_iff.mp hlast
    obtain ⟨m, o₁, o₂, h₁, h₂, -⟩ := run_concat.mp hrun
    obtain ⟨-, -, hflush⟩ := call_balanced (run_accounted samePx h₁).1 samePx .flush
    simp only [step, Option.some.injEq] at h₂
    rw [h₂] at hflush
    rw [hacc, unreleased_of_fills_nil (hflush rfl), Multiset.add_zero]
  · rintro before c after tx rfl hc
    obtain ⟨m, o₁, o₂, h₁, h₂, rfl⟩ := run_append.mp hrun
    have hheld := held_tx_of_run samePx hc h₁
    have hmid := (run_accounted samePx h₁).2
    have hnone : m.unreleased.filter (fun t => t.tx ≠ tx) = 0 :=
      Multiset.filter_eq_nil.mpr fun t ht => not_not.mpr (hheld t ht)
    refine ⟨m, o₁, o₂, h₁, h₂, rfl, ?_, ?_⟩
    · rw [hmid, Multiset.filter_add, hnone, Multiset.add_zero]
    · -- cancel what both sides had before the call returned
      rw [given_append, hmid, released_append, Multiset.add_assoc, Multiset.add_assoc] at hacc
      have hrest := congrArg (Multiset.filter fun t => t.tx ≠ tx)
        (Multiset.add_right_inj.mp hacc)
      rw [Multiset.filter_add, Multiset.filter_add, hnone, Multiset.zero_add] at hrest
      rw [hrest]
      exact Multiset.le_add_right _ _

end Runs

end KasparHft.FillSlate
