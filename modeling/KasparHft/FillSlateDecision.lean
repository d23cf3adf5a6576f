import KasparHft.FillSlateAhead

/-!
# The decision of a transaction

A fill goes out with the role that the decision of its transaction gives its side, at the record
that takes the decision, at a later one, or at the close; a fill that goes out before is
ambiguous.  A decision that is taken stays, so the fills of one side have one role.

A slate is used through its calls and through `clear`, which drops what is held.
-/

namespace KasparHft.FillSlate

open Machine

variable {Px Pl : Type} {s s' : Slate Px Pl} {samePx : Px → Px → Bool} {d : ASide}
  {o : List (Released Px Pl)}

/-! ### Uses -/

/-- What a book does with its slate: a call, or `clear`. -/
inductive Use (Px Pl : Type) where
  | call (c : Call Px Pl)
  | clear

/-- The transaction time a use carries. -/
def Use.tx : Use Px Pl → Option ℕ
  | .call c => c.tx
  | .clear => none

/-- One use. -/
def Slate.use (samePx : Px → Px → Bool) (s : Slate Px Pl) :
    Use Px Pl → Slate Px Pl × List (Released Px Pl)
  | .call c => s.call samePx c
  | .clear => (s.clear, [])

/-- The slate as a machine of its uses, none of which fails. -/
def useStep (samePx : Px → Px → Bool) (s : Slate Px Pl) (u : Use Px Pl) :
    Option (Slate Px Pl × List (Released Px Pl)) :=
  some (s.use samePx u)

theorem useStep_eq_some {u : Use Px Pl} (h : useStep samePx s u = some (s', o)) :
    s.use samePx u = (s', o) := Option.some.inj h

/-! ### Roles -/

/-- The role of a fill of a side under a decision. -/
def ASide.role : ASide → Side → FillRole
  | .none, _ => .resting
  | .unknown, _ => .ambiguous
  | .side a, sd => if sd = a then .aggressor else .resting

theorem roleFor_eq (s : Slate Px Pl) (f : Fill Px Pl) : s.roleFor f = s.aside.role f.side := by
  unfold Slate.roleFor
  cases s.aside <;> rfl

theorem ASide.role_eq_ambiguous {sd : Side} : d.role sd = .ambiguous ↔ d = .unknown := by
  cases d with
  | unknown => exact ⟨fun _ => rfl, fun _ => rfl⟩
  | none => exact ⟨nofun, nofun⟩
  | side a =>
      constructor
      · intro h
        dsimp only [ASide.role] at h
        split at h <;> cases h
      · intro h
        cases h

/-- The decision a transaction is closed with. -/
def Slate.verdict (s : Slate Px Pl) : ASide :=
  if s.aside = .unknown then s.computeSide else s.aside

/-! ### What a release leaves alone -/

/-- The transaction, its orders and its decision: what no release changes. -/
def Slate.facts (s : Slate Px Pl) : Slate Px Pl :=
  { s with fills := [], held := 0, nResting := 0, nAggressor := 0, nAmbiguous := 0 }

theorem of_facts {α : Type} (π : Slate Px Pl → α) (h : s'.facts = s.facts)
    (hπ : ∀ q : Slate Px Pl, π q.facts = π q) : π s' = π s := by
  rw [← hπ, h, hπ]

/-- A fill but for the flag that its release sets. -/
def Fill.listing (f : Fill Px Pl) : Trade Px Pl × Option ℕ := (f.toTrade, f.next)

/-- `s'` is `s` after the releases of `o`, each with the role that `d` gives. -/
structure ReleasesAs (d : ASide) (s s' : Slate Px Pl) (o : List (Released Px Pl)) : Prop where
  facts : s'.facts = s.facts
  listed : s'.fills.map Fill.listing = s.fills.map Fill.listing
  roles : ∀ r ∈ o, r.role = d.role r.fill.side
  stored : ∀ r ∈ o, r.fill.toTrade ∈ s.fills.map Fill.toTrade

theorem ReleasesAs.refl (d : ASide) (s : Slate Px Pl) : ReleasesAs d s s [] where
  facts := rfl
  listed := rfl
  roles _ hr := by cases hr
  stored _ hr := by cases hr

theorem ReleasesAs.trades (h : ReleasesAs d s s' o) :
    s'.fills.map Fill.toTrade = s.fills.map Fill.toTrade := by
  have hfst := congrArg (List.map Prod.fst) h.listed
  rw [List.map_map, List.map_map] at hfst
  exact hfst

theorem ReleasesAs.trans {s₁ s₂ s₃ : Slate Px Pl} {o₁ o₂ : List (Released Px Pl)}
    (h₁ : ReleasesAs d s₁ s₂ o₁) (h₂ : ReleasesAs d s₂ s₃ o₂) :
    ReleasesAs d s₁ s₃ (o₁ ++ o₂) where
  facts := h₂.facts.trans h₁.facts
  listed := h₂.listed.trans h₁.listed
  roles r hr := (List.mem_append.mp hr).elim (h₁.roles r) (h₂.roles r)
  stored r hr := by
    rcases List.mem_append.mp hr with hr | hr
    · exact h₁.stored r hr
    · exact h₁.trades ▸ h₂.stored r hr

theorem count_facts (s : Slate Px Pl) (r : FillRole) : (s.count r).facts = s.facts := by
  cases r <;> rfl

theorem releaseOne_as (s : Slate Px Pl) (i : ℕ) {r : FillRole}
    (hr : ∀ f, s.fills[i]? = some f → r = d.role f.side) :
    ReleasesAs d s (s.releaseOne i r).1 (s.releaseOne i r).2 := by
  unfold Slate.releaseOne
  rcases hi : s.fills[i]? with _ | f
  · exact ReleasesAs.refl d s
  · by_cases hf : f.released = true
    · simp only [hf, if_true]
      exact ReleasesAs.refl d s
    · have hfalse : f.released = false := Bool.eq_false_iff.mpr hf
      simp only [hfalse, Bool.false_eq_true, if_false]
      refine ⟨count_facts s r, ?_, ?_, ?_⟩
      · refine List.ext_getElem? fun k => ?_
        rw [List.getElem?_map, List.getElem?_map, List.getElem?_set]
        split
        next hk =>
          subst hk
          rw [hi, if_pos (List.getElem?_eq_some_iff.mp hi).1]
          rfl
        next => rfl
      · intro x hx
        rw [List.mem_singleton.mp hx]
        exact hr f hi
      · intro x hx
        rw [List.mem_singleton.mp hx]
        exact List.mem_map.mpr ⟨f, List.mem_of_getElem? hi, rfl⟩

theorem releaseEach_as (cond : Fill Px Pl → Bool) {role : Slate Px Pl → Fill Px Pl → FillRole}
    (hrole : ∀ m : Slate Px Pl, m.facts = s.facts → ∀ f, role m f = d.role f.side) (n : ℕ) :
    ∀ (m : Slate Px Pl), m.facts = s.facts → ∀ i,
      ReleasesAs d m (m.releaseEach cond role i n).1 (m.releaseEach cond role i n).2 := by
  induction n with
  | zero => exact fun m _ i => ReleasesAs.refl d m
  | succ n ih =>
      intro m hm i
      unfold Slate.releaseEach
      rcases hi : m.fills[i]? with _ | f
      · exact ReleasesAs.refl d m
      · by_cases hc : cond f = true
        · simp only [hc, if_true]
          have hone : ReleasesAs d m (m.releaseOne i (role m f)).1
              (m.releaseOne i (role m f)).2 := by
            refine releaseOne_as m i fun g hg => ?_
            rw [← Option.some.inj (hi.symm.trans hg)]
            exact hrole m hm f
          exact hone.trans (ih _ (hone.facts.trans hm) _)
        · simp only [hc]
          exact (ReleasesAs.refl d m).trans (ih m hm _)

/-- The release of one fill by `release_order`. -/
theorem releaseOne_order (m : Slate Px Pl) {i : ℕ} {f : Fill Px Pl} (hf : m.fills[i]? = some f) :
    ReleasesAs m.aside m
      (m.releaseOne i (if m.aside = .unknown then .ambiguous else m.roleFor f)).1
      (m.releaseOne i (if m.aside = .unknown then .ambiguous else m.roleFor f)).2 := by
  refine releaseOne_as m i fun g hg => ?_
  rw [← Option.some.inj (hf.symm.trans hg), roleFor_eq]
  split
  next hunknown =>
    rw [hunknown]
    rfl
  next => rfl

theorem releaseOrder_as (n : ℕ) : ∀ (m : Slate Px Pl) (i : Option ℕ),
    ReleasesAs m.aside m (m.releaseOrder .ambiguous n i).1 (m.releaseOrder .ambiguous n i).2 := by
  induction n with
  | zero => exact fun m i => ReleasesAs.refl _ m
  | succ n ih =>
      intro m i
      unfold Slate.releaseOrder
      rcases i with _ | i
      · exact ReleasesAs.refl _ m
      rcases hi : m.fills[i]? with _ | f
      · simp only [hi]
        exact ReleasesAs.refl _ m
      · simp only [hi]
        have hone := releaseOne_order m hi
        have hrest := ih (m.releaseOne i
          (if m.aside = .unknown then .ambiguous else m.roleFor f)).1 f.next
        rw [of_facts Slate.aside hone.facts fun _ => rfl] at hrest
        exact hone.trans hrest

/-! ### The close -/

/-- The first part of `close_tx`: a decision that is open is taken. -/
def Slate.settle (s : Slate Px Pl) : Slate Px Pl := { s with aside := s.verdict }

theorem closeTx_eq (s : Slate Px Pl) :
    s.closeTx = ((s.settle.releaseEach (fun f => !f.released) Slate.roleFor 0
        s.fills.length).1.clear,
      (s.settle.releaseEach (fun f => !f.released) Slate.roleFor 0 s.fills.length).2) := by
  have hsettle : (if s.aside = .unknown then { s with aside := s.computeSide } else s) =
      s.settle := by
    unfold Slate.settle Slate.verdict
    split <;> rfl
  unfold Slate.closeTx
  rw [hsettle]
  rfl

theorem roleFor_of_facts (s : Slate Px Pl) : ∀ m : Slate Px Pl, m.facts = s.settle.facts →
    ∀ f : Fill Px Pl, m.roleFor f = s.verdict.role f.side := by
  intro m hm f
  rw [roleFor_eq, of_facts Slate.aside hm fun _ => rfl]
  rfl

/-- What a close releases has the role of the verdict. -/
theorem closeTx_roles (s : Slate Px Pl) : ∀ r ∈ s.closeTx.2,
    r.role = s.verdict.role r.fill.side ∧ r.fill.toTrade ∈ s.fills.map Fill.toTrade := by
  have hloop := releaseEach_as (fun f => !f.released) (roleFor_of_facts s) s.fills.length s.settle
    rfl 0
  rw [closeTx_eq]
  exact fun r hr => ⟨hloop.roles r hr, hloop.stored r hr⟩

/-! ### Records of the open transaction -/

theorem noted_frame (samePx : Px → Px → Bool) (s : Slate Px Pl) (oid action : ℕ) (px : Px)
    (o : Ord) :
    (s.noted samePx oid action px o).fills = s.fills ∧
      (s.noted samePx oid action px o).txOpen = s.txOpen ∧
      (s.noted samePx oid action px o).tx = s.tx ∧
      (s.noted samePx oid action px o).aside = s.aside := by
  obtain ⟨kept, moved, heq⟩ := noted_eq samePx s oid action px o
  rw [heq]
  exact ⟨rfl, rfl, rfl, rfl⟩

theorem noted_seen (samePx : Px → Px → Bool) (s : Slate Px Pl) (oid action : ℕ) (px : Px)
    (o : Ord) :
    (s.noted samePx oid action px o).idx = s.idx.insert oid { o with seen := true } ∧
      (s.noted samePx oid action px o).mode = s.mode := by
  obtain ⟨kept, moved, heq⟩ := noted_eq samePx s oid action px o
  rw [heq]
  exact ⟨rfl, rfl⟩

/-- `decide` on the slate with its decision taken, if it can be: a decision just taken releases
    what the mode releases now. -/
theorem decide_eq (s : Slate Px Pl) (o : Ord) : s.decide o =
    if s.aside = .unknown then
      if s.verdict ≠ .unknown then
        s.settle.releaseEach
          (fun g => !g.released && (s.mode = .atDecision ||
            match s.idx.lookup g.oid with
            | none => false
            | some og => og.seen))
          Slate.roleFor 0 s.fills.length
      else if s.mode = .atOwnRecord then
        s.settle.releaseOrder .ambiguous s.fills.length (some o.first)
      else if s.seenOrders = s.nb + s.ns then
        s.settle.releaseEach (fun g => !g.released) (fun _ _ => .ambiguous) 0 s.fills.length
      else (s.settle, [])
    else if s.mode = .atOwnRecord then
      s.settle.releaseOrder .ambiguous s.fills.length (some o.first)
    else (s.settle, []) := by
  unfold Slate.decide
  by_cases hunknown : s.aside = .unknown
  · have hverdict : s.verdict = s.computeSide := if_pos hunknown
    have hsettle : s.settle = { s with aside := s.computeSide } := by
      unfold Slate.settle
      rw [hverdict]
    rw [if_pos hunknown, hsettle, hverdict]
    exact (if_pos hunknown).symm
  · have hverdict : s.verdict = s.aside := if_neg hunknown
    have hsettle : s.settle = s := by
      unfold Slate.settle
      rw [hverdict]
    rw [if_neg hunknown, if_neg hunknown, hsettle]

/-- What goes out at a decision has its role. -/
theorem decide_as (s : Slate Px Pl) (o : Ord) :
    ReleasesAs s.verdict s.settle (s.decide o).1 (s.decide o).2 := by
  rw [decide_eq]
  split
  · split
    · exact releaseEach_as _ (roleFor_of_facts s) _ s.settle rfl 0
    next hopen =>
      split
      · exact releaseOrder_as _ s.settle _
      · split
        · refine releaseEach_as _ (fun m hm f => ?_) _ s.settle rfl 0
          rw [not_not.mp hopen]
          rfl
        · exact ReleasesAs.refl _ _
  · split
    · exact releaseOrder_as _ s.settle _
    · exact ReleasesAs.refl _ _

/-! ### Calls of the open transaction -/

/-- What a call of the open transaction does to it: it goes on with its fills, a decision that was
    taken stays, and what is released has the role of the decision after the call. -/
structure Goes (s s' : Slate Px Pl) (o : List (Released Px Pl)) : Prop where
  txOpen : s'.txOpen = true
  tx : s'.tx = s.tx
  fixed : s.aside ≠ .unknown → s'.aside = s.aside
  roles : ∀ r ∈ o, r.role = s'.aside.role r.fill.side
  stored : ∀ r ∈ o, r.fill.toTrade ∈ s'.fills.map Fill.toTrade
  grows : s.fills.map Fill.toTrade <+: s'.fills.map Fill.toTrade

theorem Goes.refl (hopen : s.txOpen = true) : Goes s s [] where
  txOpen := hopen
  tx := rfl
  fixed _ := rfl
  roles _ hr := by cases hr
  stored _ hr := by cases hr
  grows := List.prefix_refl _

theorem onBook_goes (samePx : Px → Px → Bool) (hopen : s.txOpen = true) {tx : ℕ} (htx : tx = s.tx)
    (oid action : ℕ) (px : Px) :
    Goes s (s.onBook samePx oid tx action px).1 (s.onBook samePx oid tx action px).2 := by
  rcases onBook_cases samePx hopen htx oid action px with ⟨heq, -⟩ | ⟨o, -, -, -, heq⟩
  · rw [heq]
    exact Goes.refl hopen
  · obtain ⟨hfills, hopen', htx', haside⟩ := noted_frame samePx s oid action px o
    have hdecide := decide_as (s.noted samePx oid action px o) { o with seen := true }
    have hlast := of_facts Slate.aside hdecide.facts fun _ => rfl
    rw [heq]
    constructor
    · exact (of_facts Slate.txOpen hdecide.facts fun _ => rfl).trans (hopen'.trans hopen)
    · exact (of_facts Slate.tx hdecide.facts fun _ => rfl).trans htx'
    · intro hdecided
      have hsettle : (s.noted samePx oid action px o).settle.aside =
          (s.noted samePx oid action px o).aside := if_neg (haside ▸ hdecided)
      rw [hlast, hsettle, haside]
    · rw [hlast]
      exact hdecide.roles
    · rw [hdecide.trades]
      exact hdecide.stored
    · rw [hdecide.trades, ← hfills]
      exact List.prefix_refl _

/-- The index update leaves the mode and the decision alone, and what it rests on but for the
    orders. -/
theorem indexFill_aside (s : Slate Px Pl) (t : Trade Px Pl) (i : ℕ) :
    (s.indexFill t i).aside = s.aside ∧ (s.indexFill t i).mode = s.mode ∧
      (s.indexFill t i).seenOrders = s.seenOrders ∧ (s.indexFill t i).movedSide = s.movedSide ∧
      (s.indexFill t i).keptSide = s.keptSide := by
  unfold Slate.indexFill
  rcases s.idx.lookup t.oid with _ | o
  · cases t.side <;> exact ⟨rfl, rfl, rfl, rfl, rfl⟩
  · exact ⟨rfl, rfl, rfl, rfl, rfl⟩

/-- A fill of a decided transaction may go out at once. -/
theorem releaseIfDecided_as (s : Slate Px Pl) (oid i : ℕ) :
    ReleasesAs s.aside s (s.releaseIfDecided oid i).1 (s.releaseIfDecided oid i).2 := by
  unfold Slate.releaseIfDecided
  rcases s.idx.lookup oid with _ | o
  · exact ReleasesAs.refl _ _
  rcases hi : s.fills[i]? with _ | f
  · exact ReleasesAs.refl _ _
  · dsimp only
    split
    · refine releaseOne_as s i fun g hg => ?_
      rw [← Option.some.inj (hi.symm.trans hg)]
      exact roleFor_eq s f
    · exact ReleasesAs.refl _ _

/-- A trade record of the open transaction. -/
theorem onTrade_goes (hopen : s.txOpen = true) {t : Trade Px Pl} (htx : t.tx = s.tx) :
    Goes s (s.onTrade t).1 (s.onTrade t).2 := by
  have hadvance : s.advance t.tx = (s, []) := if_neg fun h => h.2 htx
  have hindex := indexFill_frame (s.pushFill t) t s.fills.length
  have haside := (indexFill_aside (s.pushFill t) t s.fills.length).1
  have hrel := releaseIfDecided_as ((s.pushFill t).indexFill t s.fills.length) t.oid s.fills.length
  have hlast := of_facts Slate.aside hrel.facts fun _ => rfl
  unfold Slate.onTrade
  rw [hadvance]
  constructor
  · exact (of_facts Slate.txOpen hrel.facts fun _ => rfl).trans hindex.2.2.2.2
  · refine (of_facts Slate.tx hrel.facts fun _ => rfl).trans (hindex.2.2.2.1.trans ?_)
    exact if_pos hopen
  · exact fun _ => hlast.trans haside
  · dsimp only
    rw [hlast]
    exact hrel.roles
  · dsimp only
    rw [hrel.trades]
    exact hrel.stored
  · dsimp only
    rw [hrel.trades, hindex.1]
    dsimp only [Slate.pushFill]
    rw [List.map_append]
    exact List.prefix_append _ _

theorem call_goes (hopen : s.txOpen = true) {c : Call Px Pl} (hc : c.tx = some s.tx) :
    Goes s (s.call samePx c).1 (s.call samePx c).2 := by
  cases c with
  | advance tx =>
      have hadvance : s.advance tx = (s, []) := if_neg fun h => h.2 (Option.some.inj hc)
      change Goes s (s.advance tx).1 (s.advance tx).2
      rw [hadvance]
      exact Goes.refl hopen
  | onTrade t => exact onTrade_goes hopen (Option.some.inj hc)
  | onBook oid tx action px => exact onBook_goes samePx hopen (Option.some.inj hc) oid action px
  | flush => cases hc

/-! ### Other uses -/

/-- A slate between transactions. -/
structure Slate.Idle (s : Slate Px Pl) : Prop where
  fills : s.fills = []
  nb : s.nb = 0
  ns : s.ns = 0
  seenOrders : s.seenOrders = 0
  movedSide : s.movedSide = none
  keptSide : s.keptSide = none
  buyAtTouch : s.buyAtTouch = true
  selAtTouch : s.selAtTouch = true
  aside : s.aside = .unknown

/-- Between transactions a slate is idle. -/
structure Slate.Sound (s : Slate Px Pl) : Prop extends s.Inv where
  idle : s.txOpen = false → s.Idle

theorem clear_idle (s : Slate Px Pl) : s.clear.Idle := ⟨rfl, rfl, rfl, rfl, rfl, rfl, rfl, rfl, rfl⟩

theorem sound_new (mode : Release) : (Slate.new mode : Slate Px Pl).Sound where
  toInv := inv_new mode
  idle _ := ⟨rfl, rfl, rfl, rfl, rfl, rfl, rfl, rfl, rfl⟩

theorem onTrade_txOpen (s : Slate Px Pl) (t : Trade Px Pl) : (s.onTrade t).1.txOpen = true := by
  have hindex := indexFill_frame ((s.advance t.tx).1.pushFill t) t (s.advance t.tx).1.fills.length
  have hrel := releaseIfDecided_releases
    (((s.advance t.tx).1.pushFill t).indexFill t (s.advance t.tx).1.fills.length) t.oid
    (s.advance t.tx).1.fills.length
  exact hrel.txOpen.trans hindex.2.2.2.2

/-- A slate that a call leaves closed is idle. -/
theorem call_idle (hs : s.Sound) (c : Call Px Pl) (h : (s.call samePx c).1.txOpen = false) :
    (s.call samePx c).1.Idle := by
  rcases hopen : s.txOpen with _ | _
  · cases c with
    | advance tx =>
        change (s.advance tx).1.Idle
        rw [advance_of_closed hopen]
        exact hs.idle hopen
    | onTrade t =>
        have htrue : (s.call samePx (.onTrade t)).1.txOpen = true := onTrade_txOpen s t
        rw [htrue] at h
        cases h
    | onBook oid tx action px =>
        change (s.onBook samePx oid tx action px).1.Idle
        rw [onBook_of_closed samePx hopen]
        exact hs.idle hopen
    | flush => exact clear_idle _
  · by_cases hc : c.tx = some s.tx
    · rw [(call_goes hopen hc).txOpen] at h
      cases h
    · cases c with
      | advance tx =>
          change (s.advance tx).1.Idle
          rw [advance_of_ne hopen fun heq => hc (congrArg some heq)]
          exact clear_idle _
      | onTrade t =>
          have htrue : (s.call samePx (.onTrade t)).1.txOpen = true := onTrade_txOpen s t
          rw [htrue] at h
          cases h
      | onBook oid tx action px =>
          change (s.onBook samePx oid tx action px).1.Idle
          rw [onBook_of_ne samePx hopen fun heq => hc (congrArg some heq)]
          exact clear_idle _
      | flush => exact clear_idle _

theorem use_sound (hs : s.Sound) (u : Use Px Pl) : (s.use samePx u).1.Sound := by
  cases u with
  | call c => exact ⟨(call_balanced hs.toInv samePx c).1.inv, call_idle hs c⟩
  | clear => exact ⟨clear_inv s, fun _ => clear_idle s⟩

theorem sound_of_run {mode : Release} {us : List (Use Px Pl)}
    (hrun : run (useStep samePx) (.new mode) us = some (s, o)) : s.Sound := by
  refine run_invariant (I := fun _ _ s => s.Sound) (sound_new mode) ?_ hrun
  intro _ _ m u m' o' hm hstep
  have hsound := @use_sound Px Pl m samePx hm u
  rw [useStep_eq_some hstep] at hsound
  exact hsound

/-- What a closed slate does with a call releases nothing. -/
theorem call_of_closed (hs : s.Sound) (hclosed : s.txOpen = false) (c : Call Px Pl) :
    (s.call samePx c).2 = [] := by
  cases c with
  | advance tx => exact congrArg Prod.snd (advance_of_closed hclosed tx)
  | onTrade t =>
      have hidle := hs.idle hclosed
      have haside : ((s.pushFill t).indexFill t s.fills.length).aside = .unknown :=
        (indexFill_aside _ t _).1.trans hidle.aside
      change (s.onTrade t).2 = []
      unfold Slate.onTrade
      rw [advance_of_closed hclosed]
      dsimp only
      unfold Slate.releaseIfDecided
      split
      · rw [if_neg fun h => h.1 haside]
        rfl
      · rfl
  | onBook oid tx action px =>
      exact congrArg Prod.snd (onBook_of_closed samePx hclosed oid tx action px)
  | flush =>
      have hnil := (hs.idle hclosed).fills
      change s.closeTx.2 = []
      rw [closeTx_eq, hnil]
      rfl

/-- What is held is of the open transaction. -/
theorem Slate.Inv.unreleased_tx (hs : s.Inv) : ∀ t ∈ s.unreleased, t.tx = s.tx := by
  intro t ht
  obtain ⟨f, hf, hft⟩ := List.mem_filterMap.mp (Multiset.mem_coe.mp ht)
  unfold Fill.pending at hft
  split at hft
  · cases hft
  · rw [← Option.some.inj hft]
    exact hs.tx f hf

/-- What a use releases that is not a call of the open transaction: the fills of a transaction
    that it closes, with the role of the verdict. -/
theorem use_ends (hs : s.Sound) {u : Use Px Pl} (hu : s.txOpen = true → u.tx ≠ some s.tx) :
    ∀ r ∈ (s.use samePx u).2, s.txOpen = true ∧ r ∈ s.closeTx.2 := by
  cases u with
  | clear => exact fun r hr => by cases hr
  | call c =>
      intro r hr
      change r ∈ (s.call samePx c).2 at hr
      rcases hopen : s.txOpen with _ | _
      · rw [call_of_closed hs hopen c] at hr
        cases hr
      · -- the call closes the transaction first
        have hclosed : s.closeTx.1.Sound :=
          ⟨(closeTx_balanced s).1.inv, fun _ => clear_idle _⟩
        rw [call_of_other_tx hopen (hu hopen), call_of_closed hclosed (closeTx_txOpen s) c,
          List.append_nil] at hr
        exact ⟨rfl, hr⟩

/-- Only fills of the open transaction are released. -/
theorem use_released_tx (hs : s.Sound) (u : Use Px Pl) :
    ∀ r ∈ (s.use samePx u).2, s.txOpen = true ∧ r.fill.tx = s.tx := by
  intro r hr
  by_cases hu : s.txOpen = true ∧ u.tx = some s.tx
  · cases u with
    | clear => cases hr
    | call c =>
        have hgiven : ∀ t ∈ given [c], t.tx = s.tx := by
          intro t ht
          obtain ⟨x, hx, hxt⟩ := List.mem_filterMap.mp (Multiset.mem_coe.mp ht)
          rw [List.mem_singleton.mp hx] at hxt
          cases c with
          | onTrade t' =>
              cases hxt
              exact Option.some.inj hu.2
          | advance _ => cases hxt
          | onBook _ _ _ _ => cases hxt
          | flush => cases hxt
        have hbal := (call_balanced hs.toInv samePx c).1
        exact ⟨hu.1, (hbal.forall hs.unreleased_tx hgiven).2 r hr⟩
  · have hends := use_ends hs (fun hopen heq => hu ⟨hopen, heq⟩) r hr
    have hnone : ∀ t ∈ (0 : Multiset (Trade Px Pl)), t.tx = s.tx :=
      fun t ht => absurd ht (Multiset.notMem_zero t)
    exact ⟨hends.1, ((closeTx_balanced s).1.forall hs.unreleased_tx hnone).2 r hends.2⟩

/-! ### The uses of one transaction -/

/-- What was released of a transaction agrees with a decision, but for what was ambiguous. -/
def Agrees (tx : ℕ) (d : ASide) (o : List (Released Px Pl)) : Prop :=
  ∀ r ∈ o, r.fill.tx = tx → r.role = .ambiguous ∨ r.role = d.role r.fill.side

/-- After uses of a transaction: if any of its fills is out, it is open, and they agree with its
    decision. -/
def Kept (tx : ℕ) (o : List (Released Px Pl)) (s : Slate Px Pl) : Prop :=
  (∀ r ∈ o, r.fill.tx = tx → s.txOpen = true ∧ s.tx = tx) ∧ Agrees tx s.aside o

/-- A decision that was open when fills went out is met by any. -/
theorem Agrees.of_fixed {tx : ℕ} {d' : ASide} (h : Agrees tx d o) (hfixed : d ≠ .unknown → d' = d) :
    Agrees tx d' o := by
  intro r hr htx
  rcases h r hr htx with hambiguous | hrole
  · exact .inl hambiguous
  · by_cases hd : d = .unknown
    · left
      rw [hrole, hd]
      rfl
    · right
      rw [hrole, hfixed hd]

theorem use_kept {tx : ℕ} {u : Use Px Pl} {os : List (Released Px Pl)} (hs : s.Sound)
    (hkept : Kept tx os s) (hu : u.tx = some tx) :
    Kept tx (os ++ (s.use samePx u).2) (s.use samePx u).1 := by
  by_cases hopen : s.txOpen = true ∧ s.tx = tx
  · obtain ⟨c, rfl⟩ : ∃ c, u = .call c := by
      cases u with
      | call c => exact ⟨c, rfl⟩
      | clear => cases hu
    have hgoes : Goes s (s.call samePx c).1 (s.call samePx c).2 :=
      call_goes hopen.1 (hu.trans (congrArg some hopen.2.symm))
    refine ⟨fun _ _ _ => ⟨hgoes.txOpen, hgoes.tx.trans hopen.2⟩, fun r hr htx => ?_⟩
    rcases List.mem_append.mp hr with hr | hr
    · exact hkept.2.of_fixed hgoes.fixed r hr htx
    · exact .inr (hgoes.roles r hr)
  · -- no fill of the transaction is out, and the use closes another one, if any
    have hnone : ∀ r ∈ os ++ (s.use samePx u).2, r.fill.tx ≠ tx := by
      intro r hr htx
      rcases List.mem_append.mp hr with hr | hr
      · exact hopen (hkept.1 r hr htx)
      · obtain ⟨htrue, hstx⟩ := use_released_tx hs u r hr
        exact hopen ⟨htrue, hstx.symm.trans htx⟩
    exact ⟨fun r hr htx => absurd htx (hnone r hr), fun r hr htx => absurd htx (hnone r hr)⟩

/-- The uses of a transaction and the one after them agree with one decision. -/
theorem agrees_of_block {tx : ℕ} {block : List (Use Px Pl)} {last : Use Px Pl} (hs : s.Sound)
    (hblock : ∀ u ∈ block, u.tx = some tx)
    (hrun : run (useStep samePx) s (block ++ [last]) = some (s', o)) : ∃ d, Agrees tx d o := by
  obtain ⟨m, os, ol, hfirst, hlast, rfl⟩ := run_concat.mp hrun
  have hinv : m.Sound ∧ Kept tx os m := by
    refine run_induction (I := fun _ os m => m.Sound ∧ Kept tx os m)
      (P := fun _ u => u.tx = some tx) ?_ ?_ (allSteps_of_forall hblock s) hfirst
    · exact ⟨hs, fun r hr => (List.not_mem_nil hr).elim, fun r hr => (List.not_mem_nil hr).elim⟩
    · intro _ os m u m' o' ⟨hm, hkept⟩ hu hstep
      have hsound := @use_sound Px Pl m samePx hm u
      have hnext := @use_kept Px Pl m samePx tx u os hm hkept hu
      rw [useStep_eq_some hstep] at hsound hnext
      exact ⟨hsound, hnext⟩
  obtain ⟨hm, hkept⟩ := hinv
  by_cases hu : last.tx = some tx
  · have hnext := @use_kept Px Pl m samePx tx last os hm hkept hu
    rw [useStep_eq_some hlast] at hnext
    exact ⟨s'.aside, hnext.2⟩
  · -- the transaction ends, with its verdict
    refine ⟨m.verdict, fun r hr htx => ?_⟩
    rcases List.mem_append.mp hr with hr | hr
    · have hverdict : m.aside ≠ .unknown → m.verdict = m.aside := fun h => if_neg h
      exact hkept.2.of_fixed hverdict r hr htx
    · have hout : (m.use samePx last).2 = ol := congrArg Prod.snd (useStep_eq_some hlast)
      rw [← hout] at hr
      have hmtx := (use_released_tx hm last r hr).2
      have hother : m.txOpen = true → last.tx ≠ some m.tx := by
        rintro - heq
        exact hu (heq.trans (congrArg some (hmtx.symm.trans htx)))
      exact .inr (closeTx_roles m r (use_ends hm hother r hr).2).1

/-- Calls of a transaction that is decided leave it decided so. -/
theorem aside_of_block {tx : ℕ} {block : List (Use Px Pl)} (hopen : s.txOpen = true)
    (htx : s.tx = tx) (hdecided : s.aside ≠ .unknown) (hblock : ∀ u ∈ block, u.tx = some tx)
    (hrun : run (useStep samePx) s block = some (s', o)) :
    s'.txOpen = true ∧ s'.tx = tx ∧ s'.aside = s.aside := by
  refine run_induction (I := fun _ _ m => m.txOpen = true ∧ m.tx = tx ∧ m.aside = s.aside)
    (P := fun _ u => u.tx = some tx) ⟨hopen, htx, rfl⟩ ?_ (allSteps_of_forall hblock s) hrun
  intro _ _ m u m' o' ⟨hopen, htx, haside⟩ hu hstep
  cases u with
  | clear => cases hu
  | call c =>
      have hgoes : Goes m (m.call samePx c).1 (m.call samePx c).2 :=
        call_goes hopen (hu.trans (congrArg some htx.symm))
      have heq : m.call samePx c = (m', o') := useStep_eq_some hstep
      rw [heq] at hgoes
      exact ⟨hgoes.txOpen, hgoes.tx.trans htx, (hgoes.fixed (haside ▸ hdecided)).trans haside⟩

/-- **The decision is fixed.**  After any uses, and while the uses of one transaction come, a
    decision that was taken stays; and of the fills of the transaction that go out then and at the
    use after, those of one side do not go out one as resting and one as the aggressor's, nor
    those of opposite sides both as the aggressor's. -/
theorem decision_fixed {mode : Release} {before block : List (Use Px Pl)} {last : Use Px Pl}
    {tx : ℕ} {past : List (Released Px Pl)}
    (hbefore : run (useStep samePx) (.new mode) before = some (s, past))
    (hblock : ∀ u ∈ block, u.tx = some tx)
    (hrun : run (useStep samePx) s (block ++ [last]) = some (s', o)) :
    (∀ done todo m om m' om', block = done ++ todo →
      run (useStep samePx) s done = some (m, om) → m.txOpen = true → m.tx = tx →
      m.aside ≠ .unknown → run (useStep samePx) m todo = some (m', om') → m'.aside = m.aside) ∧
    ∀ r₁ ∈ o, ∀ r₂ ∈ o, r₁.fill.tx = tx → r₂.fill.tx = tx →
      (r₁.fill.side = r₂.fill.side → r₁.role = .resting → r₂.role ≠ .aggressor) ∧
      (r₁.fill.side ≠ r₂.fill.side → r₁.role = .aggressor → r₂.role ≠ .aggressor) := by
  constructor
  · rintro done todo m om m' om' rfl - hopen htx hdecided htodo
    exact (aside_of_block hopen htx hdecided
      (fun u hu => hblock u (List.mem_append_right _ hu)) htodo).2.2
  · intro r₁ hr₁ r₂ hr₂ htx₁ htx₂
    obtain ⟨d, hagrees⟩ := agrees_of_block (sound_of_run hbefore) hblock hrun
    have h₁ := hagrees r₁ hr₁ htx₁
    have h₂ := hagrees r₂ hr₂ htx₂
    constructor
    · intro hside hresting haggressor
      rw [hresting] at h₁
      rw [haggressor] at h₂
      have hone : FillRole.resting = d.role r₁.fill.side := h₁.resolve_left nofun
      have htwo : FillRole.aggressor = d.role r₂.fill.side := h₂.resolve_left nofun
      rw [hside, ← htwo] at hone
      cases hone
    · intro hside haggressor₁ haggressor₂
      rw [haggressor₁] at h₁
      rw [haggressor₂] at h₂
      have hone := h₁.resolve_left nofun
      have htwo := h₂.resolve_left nofun
      cases d with
      | none => cases hone
      | unknown => cases hone
      | side a =>
          dsimp only [ASide.role] at hone htwo
          split at hone
          next ha₁ =>
            split at htwo
            next ha₂ => exact hside (ha₁.trans ha₂.symm)
            next => cases htwo
          next => cases hone

/-! ### A late trade -/

/-- A trade record of an order. -/
def tradeOf (oid tx : ℕ) (side : Side) (atTouch : Bool) : Use ℤ Unit :=
  .call (.onTrade
    { oid := oid, tx := tx, px := 10, side := side, qty := 1, atTouch := atTouch, pl := () })

/-- A book record of an order. -/
def recordOf (oid tx action : ℕ) (px : ℤ) : Use ℤ Unit := .call (.onBook oid tx action px)

/-- A transaction that is decided by the Change of a sell, and buys that are listed after it. -/
def lateBuys : List (Use ℤ Unit) :=
  [tradeOf 1 9 .buy true, tradeOf 2 9 .sel true, recordOf 2 9 1 10, tradeOf 3 9 .buy true,
    tradeOf 4 9 .buy true, recordOf 1 9 1 12, recordOf 3 9 2 10]

theorem late_buys_fixed :
    ∃ s' o, run (useStep (· == ·)) (.new .atDecision) (lateBuys ++ [.call .flush]) = some (s', o) ∧
      o.map (fun r => (r.fill.oid, r.role)) =
        [(1, .aggressor), (2, .resting), (3, .aggressor), (4, .aggressor)] ∧
      ∀ r₁ ∈ o, ∀ r₂ ∈ o, r₁.fill.tx = 9 → r₂.fill.tx = 9 →
        (r₁.fill.side = r₂.fill.side → r₁.role = .resting → r₂.role ≠ .aggressor) ∧
        (r₁.fill.side ≠ r₂.fill.side → r₁.role = .aggressor → r₂.role ≠ .aggressor) := by
  have hroles : (run (useStep (· == ·)) (.new .atDecision) (lateBuys ++ [.call .flush])).map
      (fun r => r.2.map fun r => (r.fill.oid, r.role)) =
        some [(1, .aggressor), (2, .resting), (3, .aggressor), (4, .aggressor)] := by decide +kernel
  obtain ⟨⟨s', o⟩, hrun, ho⟩ := Option.map_eq_some_iff.mp hroles
  have hblock : ∀ u ∈ lateBuys, u.tx = some 9 := by decide
  have hnone : run (useStep (· == ·)) (.new .atDecision) ([] : List (Use ℤ Unit)) =
      some (.new .atDecision, []) := rfl
  exact ⟨s', o, hrun, ho, (decision_fixed hnone hblock hrun).2⟩

end KasparHft.FillSlate
