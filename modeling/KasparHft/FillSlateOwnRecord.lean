import KasparHft.FillSlateIndex

/-!
# Release at the own record

In mode `AT_OWN_RECORD` the fills of an order go out at the order's own record, before the book
applies it.  What could stay behind is a fill that is listed after the record: it goes out at once
if the transaction is decided, and it is not if the record was a Delete that left one order
against one undecided.  A deleted order trades no more, and then nothing of it stays behind.
-/

namespace KasparHft.FillSlate

open Machine AssocMap

variable {Px Pl : Type} {s s' : Slate Px Pl} {samePx : Px → Px → Bool} {o : List (Released Px Pl)}
  {us : List (Use Px Pl)}

/-! ### Deletes and trades -/

/-- The order and the transaction of a Delete record. -/
def Use.deletes : Use Px Pl → Option (ℕ × ℕ)
  | .call (.onBook oid tx action _) => if action = 2 then some (oid, tx) else none
  | _ => none

/-- The order that a trade record names. -/
def Use.lists : Use Px Pl → Option ℕ
  | .call (.onTrade t) => some t.oid
  | _ => none

/-- No trade record names an order after the order's Delete record of the same transaction. -/
def TradesBeforeDelete : List (Use Px Pl) → Prop
  | [] => True
  | u :: us =>
      (match u.deletes with
        | none => True
        | some (oid, tx) => ∀ v ∈ us.takeWhile fun v => v.tx = some tx, v.lists ≠ some oid) ∧
        TradesBeforeDelete us

instance decidableTradesBeforeDelete : (us : List (Use Px Pl)) → Decidable (TradesBeforeDelete us)
  | [] => instDecidableTrue
  | u :: us =>
      @instDecidableAnd _ _
        (match u.deletes with
          | none => instDecidableTrue
          | some (oid, tx) =>
              inferInstanceAs (Decidable
                (∀ v ∈ us.takeWhile fun v => v.tx = some tx, v.lists ≠ some oid)))
        (decidableTradesBeforeDelete us)

/-- The order was deleted, and since then the uses were all of the same transaction. -/
def Deleted (us : List (Use Px Pl)) (tx oid : ℕ) : Prop :=
  ∃ past px rest, us = past ++ .call (.onBook oid tx 2 px) :: rest ∧ ∀ u ∈ rest, u.tx = some tx

theorem Deleted.concat {tx oid : ℕ} (h : Deleted us tx oid) {u : Use Px Pl} (hu : u.tx = some tx) :
    Deleted (us ++ [u]) tx oid := by
  obtain ⟨past, px, rest, rfl, hrest⟩ := h
  refine ⟨past, px, rest ++ [u], by rw [List.append_assoc, List.cons_append], ?_⟩
  intro v hv
  rcases List.mem_append.mp hv with hv | hv
  · exact hrest v hv
  · rw [List.mem_singleton.mp hv]
    exact hu

theorem TradesBeforeDelete.of_append {vs : List (Use Px Pl)} (h : TradesBeforeDelete (us ++ vs)) :
    TradesBeforeDelete us := by
  induction us with
  | nil => trivial
  | cons u us ih =>
      rw [List.cons_append] at h
      refine ⟨?_, ih h.2⟩
      have hfirst := h.1
      split at hfirst
      next => trivial
      next oid tx _ =>
        intro v hv
        refine hfirst v ?_
        rw [List.takeWhile_append]
        split
        · exact List.mem_append_left _ (List.takeWhile_subset _ hv)
        · exact hv

/-- A deleted order is not listed again. -/
theorem Deleted.not_listed {t : Trade Px Pl} (h : Deleted us t.tx t.oid)
    (hus : TradesBeforeDelete (us ++ [.call (.onTrade t)])) : False := by
  obtain ⟨past, px, rest, rfl, hrest⟩ := h
  induction past with
  | cons u past ih => exact ih hus.2
  | nil =>
      refine hus.1 (.call (.onTrade t)) ?_ rfl
      change _ ∈ (rest ++ [Use.call (Call.onTrade t)]).takeWhile fun v => v.tx = some t.tx
      have hlast : [Use.call (Call.onTrade t)].takeWhile (fun v => v.tx = some t.tx) =
          [Use.call (Call.onTrade t)] := List.takeWhile_cons_of_pos (decide_eq_true rfl)
      rw [List.takeWhile_append_of_pos fun u hu => decide_eq_true (hrest u hu), hlast]
      exact List.mem_append_right _ List.mem_cons_self

/-! ### Releases and positions -/

theorem releaseOne_ne (s : Slate Px Pl) {i k : ℕ} (r : FillRole) (h : i ≠ k) :
    (s.releaseOne i r).1.fills[k]? = s.fills[k]? := by
  unfold Slate.releaseOne
  rcases s.fills[i]? with _ | f
  · rfl
  · dsimp only
    split
    · rfl
    · exact List.getElem?_set_ne h

theorem releaseOne_released (s : Slate Px Pl) {i : ℕ} {f : Fill Px Pl} (r : FillRole)
    (hf : s.fills[i]? = some f) :
    (s.releaseOne i r).1.fills[i]?.map Fill.released = some true := by
  unfold Slate.releaseOne
  rw [hf]
  dsimp only
  split
  next hreleased =>
    rw [hf]
    exact congrArg some hreleased
  next =>
    rw [List.getElem?_set_self (List.getElem?_eq_some_iff.mp hf).1]
    rfl

/-- The loop releases what its condition picks. -/
theorem releaseEach_picked (cond : Fill Px Pl → Bool) (role : Slate Px Pl → Fill Px Pl → FillRole)
    (n : ℕ) : ∀ (m : Slate Px Pl) (i k : ℕ) (f : Fill Px Pl), i ≤ k → k < i + n →
      m.fills[k]? = some f → (f.released = true ∨ cond f = true) → n ≤ m.fills.length - i →
      (m.releaseEach cond role i n).1.fills[k]?.map Fill.released = some true := by
  induction n with
  | zero =>
      intro m i k f hik hkn
      omega
  | succ n ih =>
      intro m i k f hik hkn hf hpick hn
      unfold Slate.releaseEach
      have hi : i < m.fills.length := by omega
      rw [List.getElem?_eq_getElem hi]
      dsimp only
      set x : Slate Px Pl × List (Released Px Pl) :=
        if cond m.fills[i] = true then m.releaseOne i (role m m.fills[i]) else (m, []) with hx
      have hlen : x.1.fills.length = m.fills.length := by
        rw [hx]
        split
        · exact (releaseOne_releases m i _).length_eq
        · rfl
      by_cases hki : i = k
      · subst hki
        refine (releaseEach_releases cond role n x.1 (i + 1)).kept i ?_
        have hget : m.fills[i] = f := (List.getElem?_eq_some_iff.mp hf).2
        rw [hx]
        split
        · exact releaseOne_released m _ hf
        next hmiss =>
          rw [hget] at hmiss
          rw [hf]
          exact congrArg some (hpick.resolve_right hmiss)
      · refine ih x.1 (i + 1) k f (by omega) (by omega) ?_ hpick (by omega)
        rw [hx]
        split
        · rw [releaseOne_ne m _ hki]
          exact hf
        · exact hf

/-! ### Each use -/

/-- Once its record has come, nothing of an order is held; while the transaction is undecided, the
    record was a Delete. -/
structure OwnRecords (us : List (Use Px Pl)) (s : Slate Px Pl) : Prop where
  sound : s.Sound
  indexed : s.Indexed
  mode : s.mode = .atOwnRecord
  out : ∀ oid o, s.idx.lookup oid = some o → o.seen = true → ∀ k : ℕ, s.oids[k]? = some oid →
    s.fills[k]?.map Fill.released = some true
  deleted : ∀ oid o, s.idx.lookup oid = some o → o.seen = true → s.aside = .unknown →
    Deleted us s.tx oid

/-- A slate without fills. -/
theorem ownRecords_of_nil (hsound : s.Sound) (hindexed : s.Indexed) (hmode : s.mode = .atOwnRecord)
    (hnil : s.fills = []) : OwnRecords us s := by
  have hnone : ∀ oid o, s.idx.lookup oid = some o → False := by
    intro oid o ho
    have hget := (hindexed.of_lookup_some ho).1
    unfold Slate.oids at hget
    rw [hnil] at hget
    cases hget
  exact ⟨hsound, hindexed, hmode, fun oid o ho => (hnone oid o ho).elim,
    fun oid o ho => (hnone oid o ho).elim⟩

/-- The index update releases nothing. -/
theorem indexFill_released (s : Slate Px Pl) (t : Trade Px Pl) {k : ℕ} (hk : k < s.fills.length) :
    ((s.pushFill t).indexFill t s.fills.length).fills[k]?.map Fill.released =
      s.fills[k]?.map Fill.released := by
  rcases indexFill_cases s t with ⟨-, -, hfills⟩ | ⟨ot, -, -, hfills⟩
  · rw [hfills, List.getElem?_append_left hk]
  · rw [hfills, List.getElem?_modify, List.getElem?_append_left hk]
    rcases s.fills[k]? with _ | f
    · rfl
    · split <;> rfl

/-- An order of the index belongs to an open transaction. -/
theorem OwnRecords.txOpen (hs : OwnRecords us s) {oid : ℕ} {o : Ord}
    (ho : s.idx.lookup oid = some o) : s.txOpen = true := by
  by_contra hclosed
  have hnil := hs.sound.closed (Bool.eq_false_iff.mpr hclosed)
  have hget := (hs.indexed.of_lookup_some ho).1
  unfold Slate.oids at hget
  rw [hnil] at hget
  cases hget

/-- A trade record that finds its transaction open, or none. -/
theorem onTrade_ownRecords (hs : OwnRecords us s) {t : Trade Px Pl}
    (hus : TradesBeforeDelete (us ++ [.call (.onTrade t)])) (htx : s.txOpen = true → t.tx = s.tx) :
    OwnRecords (us ++ [.call (.onTrade t)]) (s.onTrade t).1 := by
  have hadvance : s.advance t.tx = (s, []) := if_neg fun h => h.2 (htx h.1)
  have hsound : (s.onTrade t).1.Sound :=
    @use_sound Px Pl s (fun _ _ => true) hs.sound (.call (.onTrade t))
  have hytx := onTrade_tx s t
  set x := (s.pushFill t).indexFill t s.fills.length with hx
  have hstep : s.onTrade t = x.releaseIfDecided t.oid s.fills.length := by
    unfold Slate.onTrade
    rw [hadvance]
    rfl
  rw [hstep] at hsound hytx ⊢
  have hindexed : x.Indexed := indexFill_indexed hs.indexed t
  obtain ⟨haside, hmode, -⟩ := indexFill_aside (s.pushFill t) t s.fills.length
  have hrel := releaseIfDecided_as x t.oid s.fills.length
  have hkept := releaseIfDecided_releases x t.oid s.fills.length
  have hidx := of_facts Slate.idx hrel.facts fun _ => rfl
  have hoids : (x.releaseIfDecided t.oid s.fills.length).1.oids = s.oids ++ [t.oid] :=
    (oids_of_trades hrel.trades).trans (indexFill_oids s t _)
  constructor
  · exact hsound
  · exact hrel.indexed hindexed
  · exact (of_facts Slate.mode hrel.facts fun _ => rfl).trans (hmode.trans hs.mode)
  · intro oid o ho hseen k hk
    rw [hidx] at ho
    rw [hoids] at hk
    obtain ⟨o', ho', hseen'⟩ := indexFill_seen s t ho hseen
    rcases Nat.lt_or_ge k s.fills.length with hlt | hge
    · rw [List.getElem?_append_left (length_oids s ▸ hlt)] at hk
      refine hkept.kept k ?_
      rw [indexFill_released s t hlt]
      exact hs.out oid o' ho' hseen' k hk
    · -- the new fill is of an order whose record has come, so that the transaction is decided
      rw [List.getElem?_append_right (length_oids s ▸ hge), length_oids] at hk
      have hkn : k = s.fills.length := by
        have hlt := (List.getElem?_eq_some_iff.mp hk).1
        rw [List.length_singleton] at hlt
        omega
      subst hkn
      rw [Nat.sub_self] at hk
      cases hk
      have hdecided : x.aside ≠ .unknown := by
        intro hunknown
        have hdeleted := hs.deleted t.oid o' ho' hseen' (haside.symm.trans hunknown)
        rw [← htx (hs.txOpen ho')] at hdeleted
        exact hdeleted.not_listed hus
      have hlen : s.fills.length < x.fills.length := by
        rw [← length_oids x, indexFill_oids, List.length_append, length_oids, List.length_singleton]
        omega
      have hf := List.getElem?_eq_getElem hlen
      unfold Slate.releaseIfDecided
      rw [ho, hf]
      dsimp only
      rw [if_pos ⟨hdecided, .inr hseen⟩]
      exact releaseOne_released x _ hf
  · intro oid o ho hseen hunknown
    rw [hidx] at ho
    rw [of_facts Slate.aside hrel.facts fun _ => rfl, haside] at hunknown
    obtain ⟨o', ho', hseen'⟩ := indexFill_seen s t ho hseen
    rw [hytx, htx (hs.txOpen ho')]
    exact (hs.deleted oid o' ho' hseen' hunknown).concat (congrArg some (htx (hs.txOpen ho')))

/-- A record that changes or deletes tells the mover from the order that was kept. -/
theorem computeSide_ne_unknown (h : s.movedSide ≠ none ∨ s.keptSide ≠ none) :
    s.computeSide ≠ .unknown := by
  unfold Slate.computeSide
  rcases hmoved : s.movedSide with _ | m
  · rcases hkept : s.keptSide with _ | k
    · exact absurd h (by simp [hmoved, hkept])
    · dsimp only
      repeat' split
      all_goals nofun
  · dsimp only
    repeat' split
    all_goals nofun

/-- A Change leaves a transaction decided. -/
theorem noted_verdict (hs : s.Indexed) {oid : ℕ} {o : Ord} (ho : s.idx.lookup oid = some o)
    (px : Px) : (s.noted samePx oid 1 px o).verdict ≠ .unknown := by
  have hget := (hs.of_lookup_some ho).1
  unfold Slate.oids at hget
  rw [List.getElem?_map] at hget
  obtain ⟨f, hf, -⟩ := Option.map_eq_some_iff.mp hget
  have hchange : (s.noted samePx oid 1 px o).movedSide ≠ none ∨
      (s.noted samePx oid 1 px o).keptSide ≠ none := by
    unfold Slate.noted
    rw [hf]
    dsimp only
    rw [if_pos rfl]
    split
    · exact .inr nofun
    · exact .inl nofun
  unfold Slate.verdict
  split
  · exact computeSide_ne_unknown hchange
  next h => exact h

/-- The record of an order releases all its fills. -/
theorem decide_releases_order (hs : s.Indexed) (hmode : s.mode = .atOwnRecord) {oid : ℕ} {o : Ord}
    (ho : s.idx.lookup oid = some o) (hseen : o.seen = true) {k : ℕ} (hk : s.oids[k]? = some oid) :
    (s.decide o).1.fills[k]?.map Fill.released = some true := by
  obtain ⟨hfirst, hbefore⟩ := hs.of_lookup_some ho
  have hlt : k < s.fills.length := by
    rw [← length_oids]
    exact (List.getElem?_eq_some_iff.mp hk).1
  have horder : (s.settle.releaseOrder .ambiguous s.fills.length
      (some o.first)).1.fills[k]?.map Fill.released = some true := by
    unfold Slate.oids at hfirst
    rw [List.getElem?_map] at hfirst
    obtain ⟨f, hf, hoid⟩ := Option.map_eq_some_iff.mp hfirst
    have hle : o.first ≤ k := by
      by_contra hgt
      exact hbefore k (by omega) hk
    exact releaseOrder_all s.fills.length s.settle (settle_indexed hs) o.first k f hf
      (Nat.le_add_left _ _) hle (hoid ▸ hk)
  rw [decide_eq]
  by_cases hunknown : s.aside = .unknown
  · rw [if_pos hunknown]
    split
    · -- the decision is taken, and every order goes out whose record has come
      have hget : s.fills[k]? = some s.fills[k] := List.getElem?_eq_getElem hlt
      have hoid : s.fills[k].oid = oid := Option.some.inj ((getElem?_oids hget).symm.trans hk)
      refine releaseEach_picked _ _ s.fills.length s.settle 0 k s.fills[k] (Nat.zero_le k)
        (by omega) hget ?_ (Nat.le_refl _)
      rcases s.fills[k].released with _ | _
      · right
        rw [hoid, ho]
        simp [hseen]
      · exact .inl rfl
    · exact horder
  · rw [if_neg hunknown, if_pos hmode]
    exact horder

/-- The first Change or Delete of a listed order. -/
theorem noted_ownRecords (hs : OwnRecords us s) {oid action : ℕ} {px : Px} {o : Ord}
    (haction : action = 1 ∨ action = 2) (ho : s.idx.lookup oid = some o)
    (hsound : ((s.noted samePx oid action px o).decide { o with seen := true }).1.Sound) :
    OwnRecords (us ++ [.call (.onBook oid s.tx action px)])
      ((s.noted samePx oid action px o).decide { o with seen := true }).1 := by
  obtain ⟨hfills, -, htx, haside⟩ := noted_frame samePx s oid action px o
  obtain ⟨hidx, hmode⟩ := noted_seen samePx s oid action px o
  have hindexed : (s.noted samePx oid action px o).Indexed := noted_indexed hs.indexed ho action px
  have hverdict : action = 1 → (s.noted samePx oid action px o).verdict ≠ .unknown := by
    rintro rfl
    exact noted_verdict hs.indexed ho px
  set x := s.noted samePx oid action px o
  have hdecide := decide_as x { o with seen := true }
  have hkept := decide_releases x { o with seen := true }
  have hidx' : (x.decide { o with seen := true }).1.idx =
      s.idx.insert oid { o with seen := true } :=
    (of_facts Slate.idx hdecide.facts fun _ => rfl).trans hidx
  have hxoids : x.oids = s.oids := congrArg (List.map _) hfills
  have hoids : (x.decide { o with seen := true }).1.oids = s.oids :=
    (oids_of_trades hdecide.trades).trans hxoids
  have hsame : ∀ oid' o', (x.decide { o with seen := true }).1.idx.lookup oid' = some o' →
      oid' ≠ oid → s.idx.lookup oid' = some o' := by
    intro oid' o' ho' hne
    rw [hidx', AList.lookup_insert_ne hne] at ho'
    exact ho'
  constructor
  · exact hsound
  · exact hdecide.indexed (settle_indexed hindexed)
  · exact (of_facts Slate.mode hdecide.facts fun _ => rfl).trans (hmode.trans hs.mode)
  · intro oid' o' ho' hseen k hk
    rw [hoids] at hk
    by_cases hoid : oid' = oid
    · rw [hoid, ← hxoids] at hk
      have hlookup : x.idx.lookup oid = some { o with seen := true } := by
        rw [hidx, AList.lookup_insert]
      exact decide_releases_order hindexed (hmode.trans hs.mode) hlookup rfl hk
    · refine hkept.kept k ?_
      rw [hfills]
      exact hs.out oid' o' (hsame oid' o' ho' hoid) hseen k hk
  · intro oid' o' ho' hseen hunknown
    -- the transaction is undecided after the record, so that it was before
    have hafter : x.verdict = .unknown :=
      (of_facts Slate.aside hdecide.facts fun _ => rfl).symm.trans hunknown
    have hbefore : s.aside = .unknown := by
      by_contra hdecided
      have hfixed : x.verdict = x.aside := if_neg (haside ▸ hdecided)
      exact hdecided (haside.symm.trans (hfixed.symm.trans hafter))
    have htx' : (x.decide { o with seen := true }).1.tx = s.tx :=
      (of_facts Slate.tx hdecide.facts fun _ => rfl).trans htx
    rw [htx']
    by_cases hoid : oid' = oid
    · rcases haction with haction | rfl
      · exact absurd hafter (hverdict haction)
      · rw [hoid]
        exact ⟨us, px, [], rfl, fun u hu => (List.not_mem_nil hu).elim⟩
    · exact (hs.deleted oid' o' (hsame oid' o' ho' hoid) hseen hbefore).concat rfl

theorem OwnRecords.concat (hs : OwnRecords us s) {u : Use Px Pl} (hu : u.tx = some s.tx) :
    OwnRecords (us ++ [u]) s :=
  ⟨hs.sound, hs.indexed, hs.mode, hs.out,
    fun oid o ho hseen hunknown => (hs.deleted oid o ho hseen hunknown).concat hu⟩

theorem closeTx_ownRecords (hs : OwnRecords us s) : OwnRecords us s.closeTx.1 := by
  have hmode : s.closeTx.1.mode = s.mode := by
    have hloop := releaseEach_as (fun f => !f.released) (roleFor_of_facts s) s.fills.length s.settle
      rfl 0
    have hsettle := of_facts Slate.mode hloop.facts fun _ => rfl
    rw [closeTx_eq]
    exact hsettle
  exact ownRecords_of_nil ⟨(closeTx_balanced s).1.inv, fun _ => clear_idle _⟩
    (closeTx_indexed hs.indexed) (hmode.trans hs.mode) rfl

/-- A slate that is closed has nothing to do with what came before. -/
theorem OwnRecords.of_closed (hs : OwnRecords us s) (hclosed : s.txOpen = false)
    (vs : List (Use Px Pl)) : OwnRecords vs s :=
  ownRecords_of_nil hs.sound hs.indexed hs.mode (hs.sound.closed hclosed)

/-- **Each use** keeps the own records. -/
theorem use_ownRecords (hs : OwnRecords us s) (u : Use Px Pl)
    (hus : TradesBeforeDelete (us ++ [u])) : OwnRecords (us ++ [u]) (s.use samePx u).1 := by
  cases u with
  | clear =>
      exact ownRecords_of_nil ⟨clear_inv s, fun _ => clear_idle s⟩ (clear_indexed hs.indexed)
        hs.mode rfl
  | call c =>
      have hclose : ∀ vs, OwnRecords vs s.closeTx.1 := fun vs =>
        (closeTx_ownRecords hs).of_closed (closeTx_txOpen s) vs
      cases c with
      | advance tx =>
          change OwnRecords _ (s.advance tx).1
          by_cases hnew : s.txOpen = true ∧ tx ≠ s.tx
          · rw [advance_of_ne hnew.1 hnew.2]
            exact hclose _
          · have hstay : s.advance tx = (s, []) := if_neg hnew
            rw [hstay]
            rcases hopen : s.txOpen with _ | _
            · exact hs.of_closed hopen _
            · have htx : tx = s.tx := not_not.mp fun hne => hnew ⟨hopen, hne⟩
              exact hs.concat (congrArg some htx)
      | onTrade t =>
          change OwnRecords _ (s.onTrade t).1
          by_cases htx : s.txOpen = true → t.tx = s.tx
          · exact onTrade_ownRecords hs hus htx
          · -- another transaction is closed first
            have hne : s.txOpen = true ∧ t.tx ≠ s.tx := Classical.not_imp.mp htx
            have hstep : (s.onTrade t).1 = (s.closeTx.1.onTrade t).1 := by
              unfold Slate.onTrade
              rw [advance_of_ne hne.1 hne.2, advance_of_closed (closeTx_txOpen s)]
            rw [hstep]
            refine onTrade_ownRecords (hclose us) hus fun hopen => ?_
            rw [closeTx_txOpen] at hopen
            cases hopen
      | onBook oid tx action px =>
          have hsound := @use_sound Px Pl s samePx hs.sound (.call (.onBook oid tx action px))
          change (s.onBook samePx oid tx action px).1.Sound at hsound
          change OwnRecords _ (s.onBook samePx oid tx action px).1
          rcases hopen : s.txOpen with _ | _
          · rw [onBook_of_closed samePx hopen]
            exact hs.of_closed hopen _
          · by_cases htx : tx = s.tx
            · subst htx
              rcases onBook_cases samePx hopen rfl oid action px with
                ⟨heq, -⟩ | ⟨o, haction, ho, -, heq⟩
              · rw [heq]
                exact hs.concat rfl
              · rw [heq] at hsound ⊢
                exact noted_ownRecords hs haction ho hsound
            · rw [onBook_of_ne samePx hopen htx]
              exact hclose _
      | flush => exact hclose _

theorem ownRecords_of_run (hus : TradesBeforeDelete us)
    (hrun : run (useStep samePx) (.new .atOwnRecord) us = some (s, o)) : OwnRecords us s := by
  have hI : TradesBeforeDelete us → OwnRecords us s := by
    refine run_invariant (I := fun us _ s => TradesBeforeDelete us → OwnRecords us s) ?_ ?_ hrun
    · exact fun _ => ownRecords_of_nil (sound_new .atOwnRecord) (indexed_new .atOwnRecord) rfl rfl
    · intro us _ m u m' o' hI hstep hus
      have hnext := @use_ownRecords Px Pl m samePx us (hI hus.of_append) u hus
      rw [useStep_eq_some hstep] at hnext
      exact hnext
  exact hI hus

/-- **After its record nothing of an order is held**: in mode `AT_OWN_RECORD`, if no trade record
    names an order after the order's Delete record of the same transaction, then once the slate
    has been told of a Change or a Delete of an order, no fill of the order is held. -/
theorem not_held_after_record {oid tx action : ℕ} {px : Px}
    (hus : TradesBeforeDelete (us ++ [.call (.onBook oid tx action px)]))
    (haction : action = 1 ∨ action = 2)
    (hrun : run (useStep samePx) (.new .atOwnRecord)
      (us ++ [.call (.onBook oid tx action px)]) = some (s, o)) :
    ∀ f ∈ s.fills, f.oid = oid → f.released = true := by
  obtain ⟨m, o₁, o₂, hbefore, hlast, -⟩ := run_concat.mp hrun
  have hm := ownRecords_of_run hus.of_append hbefore
  have hs := ownRecords_of_run hus hrun
  have hstep : m.onBook samePx oid tx action px = (s, o₂) := useStep_eq_some hlast
  intro f hf hoid
  obtain ⟨k, hk⟩ := List.mem_iff_getElem?.mp hf
  have hget := hoid ▸ getElem?_oids hk
  -- the order of a fill that is stored after the record has its record in
  suffices hseen : ∃ o, s.idx.lookup oid = some o ∧ o.seen = true by
    obtain ⟨o, ho, hseen⟩ := hseen
    have hout := hs.out oid o ho hseen k hget
    rw [hk] at hout
    exact Option.some.inj hout
  obtain ⟨o, ho⟩ : ∃ o, s.idx.lookup oid = some o :=
    Option.ne_none_iff_exists'.mp fun hnone => hs.indexed.of_lookup_none hnone k hget
  have hopen := hs.txOpen ho
  rcases hopen' : m.txOpen with _ | _
  · rw [onBook_of_closed samePx hopen'] at hstep
    cases hstep
    rw [hopen'] at hopen
    cases hopen
  · by_cases htx : tx = m.tx
    · rcases onBook_cases samePx hopen' htx oid action px with ⟨heq, hwhy⟩ | ⟨om, -, hom, -, heq⟩
      · rw [heq] at hstep
        cases hstep
        rcases hwhy with hnot | hnone | hseen
        · exact (haction.elim hnot.1 hnot.2).elim
        · rw [hnone] at ho
          cases ho
        · exact hseen
      · rw [heq] at hstep
        have hidx := of_facts Slate.idx (decide_as (m.noted samePx oid action px om)
          { om with seen := true }).facts fun _ => rfl
        rw [hstep] at hidx
        refine ⟨{ om with seen := true }, ?_, rfl⟩
        rw [hidx]
        refine (congrArg (AList.lookup oid) (noted_seen samePx m oid action px om).1).trans ?_
        exact AList.lookup_insert _
    · rw [onBook_of_ne samePx hopen' htx] at hstep
      have hclosed := closeTx_txOpen m
      rw [hstep, hopen] at hclosed
      cases hclosed

/-- What is held before and not after has gone out. -/
theorem released_of_not_held (hbal : Balanced s 0 s' o) {oid : ℕ}
    (hnone : ∀ f ∈ s'.fills, f.oid = oid → f.released = true) :
    ∀ f ∈ s.fills, f.oid = oid → f.released = false → ∃ r ∈ o, r.fill.toTrade = f.toTrade := by
  intro f hf hoid hheld
  have hpending : f.pending = some f.toTrade := by
    unfold Fill.pending
    rw [hheld, if_neg Bool.false_ne_true]
  have hmem : f.toTrade ∈ s.unreleased :=
    Multiset.mem_coe.mpr (List.mem_filterMap.mpr ⟨f, hf, hpending⟩)
  have hmoved := hbal.moved
  rw [Multiset.add_zero] at hmoved
  rw [hmoved] at hmem
  rcases Multiset.mem_add.mp hmem with hout | hstill
  · exact List.mem_map.mp (Multiset.mem_coe.mp hout)
  · obtain ⟨g, hg, hgf⟩ := List.mem_filterMap.mp (Multiset.mem_coe.mp hstill)
    unfold Fill.pending at hgf
    split at hgf
    next => cases hgf
    next hgheld =>
      have hgoid : g.oid = oid := (congrArg Trade.oid (Option.some.inj hgf)).trans hoid
      exact absurd (hnone g hg hgoid) hgheld

end KasparHft.FillSlate
