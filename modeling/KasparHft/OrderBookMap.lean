import KasparHft.OrderBookEffect
import KasparHft.Registry

/-!
# The order map and the queues

`ordermap` says of every exchange order which id it rests under, at which side and price and
with which size; the queues hold the orders.  In simulation the two are shown to agree after
every run, unless a snapshot re-sends an order already held with another side, price or size:
that branch writes the map and leaves the queues, which no clear rebuilds once the recovery
has begun.
-/

namespace KasparHft.OB

open AssocMap FillSlate Machine Registry

variable {Px : Type} {cfg : FeedCfg} {ops : PriceOps Px} {s s' : State Px}

/-! ### The order map as a registry -/

/-- What an entry of the map says: the id, the side and tick, the size. -/
def OrderInfo.entry (ops : PriceOps Px) (e : OrderInfo Px) : Entry LongId (Side × ℤ) ℤ :=
  ⟨e.chopid, (e.side, ops.toPx e.px), e.sz⟩

def registry (ops : PriceOps Px) (m : Map ℕ (OrderInfo Px)) (i : ℕ) :
    Option (Entry LongId (Side × ℤ) ℤ) :=
  (m.lookup i).map (OrderInfo.entry ops)

theorem registry_of_lookup {m : Map ℕ (OrderInfo Px)} {i : ℕ} {e : OrderInfo Px}
    (h : m.lookup i = some e) : registry ops m i = some (e.entry ops) := by
  rw [registry, h, Option.map_some]

theorem registry_eq_some {m : Map ℕ (OrderInfo Px)} {i : ℕ}
    {x : Entry LongId (Side × ℤ) ℤ} (h : registry ops m i = some x) :
    ∃ e, m.lookup i = some e ∧ x = e.entry ops := by
  obtain ⟨e, he, rfl⟩ := Option.map_eq_some_iff.mp h
  exact ⟨e, he, rfl⟩

theorem registry_empty : registry ops (∅ : Map ℕ (OrderInfo Px)) = fun _ => none := rfl

theorem registry_insert (m : Map ℕ (OrderInfo Px)) (i : ℕ) (e : OrderInfo Px) :
    registry ops (m.insert i e) = Function.update (registry ops m) i (some (e.entry ops)) := by
  funext j
  by_cases hj : j = i
  · subst hj
    rw [Function.update_self]
    exact registry_of_lookup (AList.lookup_insert m)
  · rw [Function.update_of_ne hj, registry, AList.lookup_insert_ne hj, registry]

theorem registry_erase (m : Map ℕ (OrderInfo Px)) (i : ℕ) :
    registry ops (m.erase i) = Function.update (registry ops m) i none := by
  funext j
  by_cases hj : j = i
  · subst hj
    rw [Function.update_self, registry, AList.lookup_erase, Option.map_none]
  · rw [Function.update_of_ne hj, registry, AList.lookup_erase_ne hj, registry]

/-! ### The invariant -/

/-- The map and the queues agree; what the map, the slate and `del_q` hold is as the handlers
    leave it. -/
structure Sound (cfg : FeedCfg) (ops : PriceOps Px) (s : State Px) : Prop where
  agree : Agree (registry ops s.ordermap) s.book.resting
  ladder : ∀ i e, s.ordermap.lookup i = some e → onLadder cfg ops e.px = true
  execs : ExecsOnly s.execSlate
  sims : ∀ p ∈ s.delQ, p.1.isSim = true

/-- The orders become `rest` and the map `m`. -/
theorem Becomes.sound {rest : Side × ℤ → List (LongId × ℤ)} {m : Map ℕ (OrderInfo Px)}
    (hbec : Becomes s rest s') (hagree : Agree (registry ops m) rest)
    (hladder : ∀ i e, m.lookup i = some e → onLadder cfg ops e.px = true)
    (hexecs : ExecsOnly s.execSlate) (hsims : ∀ p ∈ s.delQ, p.1.isSim = true) :
    Sound cfg ops { s' with ordermap := m } where
  agree := by
    change Agree (registry ops m) s'.book.resting
    rw [hbec.resting]
    exact hagree
  ladder := hladder
  execs := by
    change ExecsOnly s'.execSlate
    rw [hbec.execSlate]
    exact hexecs
  sims p hp := hsims p (hbec.delQ p hp)

/-- The same, when the map was written before. -/
theorem Becomes.sound_self {rest : Side × ℤ → List (LongId × ℤ)} (hbec : Becomes s rest s')
    (hagree : Agree (registry ops s.ordermap) rest)
    (hladder : ∀ i e, s.ordermap.lookup i = some e → onLadder cfg ops e.px = true)
    (hexecs : ExecsOnly s.execSlate) (hsims : ∀ p ∈ s.delQ, p.1.isSim = true) :
    Sound cfg ops s' := by
  have hsound := hbec.sound hagree hladder hexecs hsims
  rw [← hbec.ordermap] at hsound
  exact hsound

theorem Sound.kept (hs : Sound cfg ops s) (hkept : Kept s s') : Sound cfg ops s' :=
  hkept.sound_self hs.agree hs.ladder hs.execs hs.sims

/-- The prices of the ladder are the ticks a payload needs. -/
theorem onLadder_iff {px : Px} :
    onLadder cfg ops px = true ↔ 0 < ops.toPx px ∧ ops.toPx px < cfg.maxprice := by
  simp [onLadder]

/-! ### Payloads of book records -/

theorem mboPayload_eq_some {m : Mbo Px} {side : Side} {ref : LongId} {mev : Md} {action : Mt}
    {sz dispSz : ℤ} {px : Px} {eoe recovery : Bool} {pl : Pl}
    (h : s.mboPayload ops m side ref mev action sz dispSz px eoe recovery = some pl) :
    pl.isValid = true ∧ pl.side = side ∧ pl.px = ops.toPx px ∧ pl.orderRef = ref ∧
      pl.mev = mev ∧ pl.action = action ∧ pl.sz = sz ∧ pl.dispSz = dispSz := by
  unfold State.mboPayload at h
  dsimp only at h
  split at h
  next hok =>
    cases h
    exact ⟨(Bool.and_eq_true _ _ ▸ hok).2, rfl, rfl, rfl, rfl, rfl, rfl, rfl⟩
  next => cases h

/-- A size that passes the payload's checks is the size of the record. -/
theorem toInt32_displayQty (m : Mbo Px) (h : 0 ≤ toInt32 m.displayQty) :
    toInt32 m.displayQty = m.displayQty :=
  toInt32_of_lt (lt_of_toInt32_nonneg m.displayQty_lt h)

/-- The payload of an add appends the order. -/
theorem add_payload {m : Mbo Px} {side : Side} {ref : LongId} {px : Px} {eoe recovery : Bool}
    {pl : Pl} (hpx : onLadder cfg ops px = true)
    (h : s.mboPayload ops m side ref .add .none (toInt32 m.displayQty) (toInt32 m.displayQty) px
      eoe recovery = some pl) :
    pl.Handled cfg ∧ 0 < pl.px ∧
      ∀ rest, pl.effect rest = Function.update rest (side, ops.toPx px)
        (rest (side, ops.toPx px) ++ [(ref, (m.displayQty : ℤ))]) := by
  obtain ⟨hvalid, hside, hplpx, href, hmev, -, hsz, -⟩ := mboPayload_eq_some h
  obtain ⟨hpos, hlt⟩ := onLadder_iff.mp hpx
  have hnonneg := (Payload.sizes_of_isValid (.inl hmev) hvalid).1
  rw [hsz] at hnonneg
  refine ⟨.inr ⟨by rw [hplpx]; exact hlt, .inl hmev⟩, by rw [hplpx]; exact hpos, ?_⟩
  intro rest
  simp only [Pl.effect, hmev, if_true, hside, hplpx, href, hsz, toInt32_displayQty m hnonneg]

/-- The payload of a delete removes it. -/
theorem cancd_payload {m : Mbo Px} {e : OrderInfo Px} {eoe recovery : Bool} {pl : Pl}
    (hpx : onLadder cfg ops e.px = true)
    (h : s.mboPayload ops m e.side e.chopid .mod .cancd 0 0 e.px eoe recovery = some pl) :
    pl.Handled cfg ∧ 0 < pl.px ∧
      ∀ rest, pl.effect rest = Function.update rest (e.entry ops).loc
        ((rest (e.entry ops).loc).filter fun x => x.1 ≠ (e.entry ops).id) := by
  obtain ⟨-, hside, hplpx, href, hmev, haction, -, -⟩ := mboPayload_eq_some h
  obtain ⟨hpos, hlt⟩ := onLadder_iff.mp hpx
  refine ⟨.inr ⟨by rw [hplpx]; exact hlt, .inr ⟨hmev, .inr haction⟩⟩,
    by rw [hplpx]; exact hpos, ?_⟩
  intro rest
  unfold Pl.effect
  rw [hmev, haction, if_neg (by decide), if_pos rfl, hside, hplpx, href]
  rfl

/-- The payload of a reduction changes its size. -/
theorem canc_payload {m : Mbo Px} {e : OrderInfo Px} {eoe recovery : Bool} {pl : Pl}
    (hpx : onLadder cfg ops e.px = true)
    (h : s.mboPayload ops m e.side e.chopid .mod .canc 0 (toInt32 m.displayQty) e.px eoe
      recovery = some pl) :
    pl.Handled cfg ∧ 0 < pl.px ∧
      ∀ rest, pl.effect rest = Function.update rest (e.entry ops).loc
        ((rest (e.entry ops).loc).map fun x =>
          if x.1 = (e.entry ops).id then (x.1, (m.displayQty : ℤ)) else x) := by
  obtain ⟨hvalid, hside, hplpx, href, hmev, haction, -, hdisp⟩ := mboPayload_eq_some h
  obtain ⟨hpos, hlt⟩ := onLadder_iff.mp hpx
  have hnonneg := (Payload.sizes_of_isValid (.inr hmev) hvalid).2.2
  rw [hdisp] at hnonneg
  refine ⟨.inr ⟨by rw [hplpx]; exact hlt, .inr ⟨hmev, .inl haction⟩⟩,
    by rw [hplpx]; exact hpos, ?_⟩
  intro rest
  unfold Pl.effect
  rw [hmev, haction, if_neg (by decide), if_neg (by decide), if_pos rfl, hside, hplpx, href, hdisp,
    toInt32_displayQty m hnonneg]
  rfl

/-! ### The branches on a book record -/

/-- The next id is not that of another listed order. -/
def FreshId (s : State Px) (m : Mbo Px) : Prop :=
  ∀ i e, s.ordermap.lookup i = some e → i ≠ m.orderID → e.chopid ≠ s.nextId m

/-- The record asks for an id: a New of an order that is not held, or a cancel replace. -/
def TakesId (ops : PriceOps Px) (s : State Px) (m : Mbo Px) : Prop :=
  match s.ordermap.lookup m.orderID with
  | none => m.orderUpdateAction = 0
  | some e => m.orderUpdateAction = 1 ∧
      (e.sz < m.displayQty ∨ ((getSide m.side).isSome ∧ ops.eq m.pxd e.px = false))

/-- The record repeats what the map holds of the order. -/
def Repeats (ops : PriceOps Px) (m : Mbo Px) (e : OrderInfo Px) : Prop :=
  getSide m.side = some e.side ∧ ops.toPx m.pxd = ops.toPx e.px ∧ m.displayQty = e.sz

theorem onAdd_sound {m : Mbo Px} {o : List Sent} (hsimul : cfg.doCrossCheck = true)
    (hs : Sound cfg ops s) (hpx : onLadder cfg ops m.pxd = true)
    (hfresh : s.ordermap.lookup m.orderID = none → FreshId s m)
    (hresend : ∀ e, m.recovery = true → s.ordermap.lookup m.orderID = some e → Repeats ops m e)
    (h : s.onAdd cfg ops m = some (s', o)) : Sound cfg ops s' := by
  cases onAdd_cases h with
  | @resent e side he hrec hside =>
      -- the map is written over with what it holds
      obtain ⟨hsame, htick, hsz⟩ := hresend e hrec he
      rw [hside] at hsame
      cases Option.some.inj hsame
      refine ⟨?_, ?_, hs.execs, hs.sims⟩
      · have hself : (OrderInfo.entry ops { e with px := m.pxd, sz := m.displayQty }) =
            e.entry ops := by
          simp only [OrderInfo.entry, htick, hsz]
        have hreg := hs.agree
        rw [registry_insert, hself, ← registry_of_lookup he, Function.update_eq_self]
        exact hreg
      · exact forall_insert hs.ladder hpx
  | ignored => exact hs
  | entered hnone hs₁ hpl hq =>
      subst hs₁
      obtain ⟨hhandled, hpos, heffect⟩ := add_payload hpx hpl
      have hbec := (processQ_becomes hsimul hhandled (.inr hpos) hq hs.sims).2
      rw [heffect] at hbec
      refine hbec.sound_self ?_ (forall_insert hs.ladder hpx) hs.execs hs.sims
      rw [registry_insert]
      refine hs.agree.insert (e := OrderInfo.entry ops _) ?_ ?_
      · rw [registry, hnone, Option.map_none]
      · intro i x hx
        obtain ⟨e, he, rfl⟩ := registry_eq_some hx
        refine hfresh hnone i e he ?_
        rintro rfl
        rw [hnone] at he
        cases he

theorem onCancd_sound {m : Mbo Px} {o : List Sent} (hsimul : cfg.doCrossCheck = true)
    (hs : Sound cfg ops s) (h : s.onCancd cfg ops m = some (s', o)) : Sound cfg ops s' := by
  rcases onCancd_cases h with ⟨-, rfl, -⟩ | ⟨e, pl, s₁, he, hpl, hq, rfl⟩
  · exact hs
  · obtain ⟨hhandled, hpos, heffect⟩ := cancd_payload (hs.ladder _ _ he) hpl
    obtain ⟨slate, hslate, hbec⟩ :=
      processSlatedExec_becomes hsimul hhandled hpos hq hs.sims hs.execs
    rw [heffect] at hbec
    have hmap : s₁.ordermap = s.ordermap := hbec.ordermap
    rw [hmap]
    refine hbec.sound ?_ (forall_erase hs.ladder) hslate hs.sims
    rw [registry_erase]
    exact hs.agree.erase (registry_of_lookup he)

theorem cancReplace_sound {m : Mbo Px} {e : OrderInfo Px} {o : List Sent}
    (hsimul : cfg.doCrossCheck = true) (hs : Sound cfg ops s)
    (hpx : onLadder cfg ops m.pxd = true) (hfresh : FreshId s m)
    (he : s.ordermap.lookup m.orderID = some e)
    (h : s.cancReplace cfg ops m e = some (s', o)) : Sound cfg ops s' := by
  obtain ⟨pl₁, s₁, o₁, pl₂, s₂, o₂, hpl₁, hdel, hpl₂, hadd, -, rfl, -⟩ := cancReplace_some h
  have hladder := replacePx_onLadder hpx (hs.ladder _ _ he)
  obtain ⟨hhandled₁, hpos₁, heffect₁⟩ := cancd_payload (hs.ladder _ _ he) hpl₁
  obtain ⟨slate, hslate, hbec₁⟩ :=
    processSlatedExec_becomes hsimul hhandled₁ hpos₁ hdel hs.sims hs.execs
  rw [heffect₁] at hbec₁
  obtain ⟨hhandled₂, hpos₂, heffect₂⟩ := add_payload hladder hpl₂
  have hbec₂ := (processQ_becomes hsimul hhandled₂ (.inr hpos₂) hadd
    fun p hp => hs.sims p (hbec₁.delQ p hp)).2
  rw [heffect₂] at hbec₂
  have hnext : s₁.nextId m = s.nextId m := by
    unfold State.nextId
    rw [hbec₁.bookoid]
  have hmap : s₂.ordermap = s.ordermap := hbec₂.ordermap.trans hbec₁.ordermap
  have hrest : s₁.bumpId.book.resting = _ := hbec₁.resting
  have hexecs : ExecsOnly s₁.bumpId.execSlate := hbec₁.execSlate ▸ hslate
  rw [hmap]
  refine hbec₂.sound ?_ (forall_insert hs.ladder hladder) hexecs
    fun p hp => hs.sims p (hbec₁.delQ p hp)
  -- a delete and an add under a new id
  have hdeleted := hs.agree.erase (registry_of_lookup he)
  have hadded := hdeleted.insert
    (e := OrderInfo.entry ops { e with
      chopid := s.nextId m, xoid := m.orderID, sz := m.displayQty, px := replacePx m e })
    (Function.update_self ..) ?_
  · rw [registry_insert, hnext, hrest]
    rw [Function.update_idem] at hadded
    exact hadded
  · intro i x hx
    by_cases hi : i = m.orderID
    · rw [hi, Function.update_self] at hx
      cases hx
    · rw [Function.update_of_ne hi] at hx
      obtain ⟨e', he', rfl⟩ := registry_eq_some hx
      exact hfresh i e' he' hi

theorem onCanc_sound {m : Mbo Px} {o : List Sent} (hsimul : cfg.doCrossCheck = true)
    (hs : Sound cfg ops s) (hpx : onLadder cfg ops m.pxd = true)
    (hchange : m.orderUpdateAction = 1) (hfresh : TakesId ops s m → FreshId s m)
    (h : s.onCanc cfg ops m = some (s', o)) : Sound cfg ops s' := by
  rcases onCanc_cases h with ⟨-, rfl, -⟩ |
    ⟨e, he, ⟨hmoves, -, hreplace⟩ | ⟨-, pl, s₁, rfl, hpl, hq⟩⟩
  · exact hs
  · refine cancReplace_sound hsimul hs hpx (hfresh ?_) he hreplace
    unfold TakesId
    rw [he]
    exact ⟨hchange, hmoves⟩
  · -- the size is written in the map, then the queue follows
    obtain ⟨hhandled, hpos, heffect⟩ := canc_payload (hs.ladder _ _ he) hpl
    obtain ⟨slate, hslate, hbec⟩ :=
      processSlatedExec_becomes hsimul hhandled hpos hq hs.sims hs.execs
    rw [heffect] at hbec
    have hpx' := hs.ladder _ _ he
    refine hbec.sound_self ?_ (forall_insert hs.ladder hpx') hslate hs.sims
    dsimp only
    rw [registry_insert]
    exact hs.agree.modify (registry_of_lookup he) (m.displayQty : ℤ)

/-! ### The other handlers -/

theorem clear_sound {o : List Sent} (h : s.clear cfg = some (s', o))
    (hsims : ∀ p ∈ s.delQ, p.1.isSim = true) :
    Sound cfg ops s' ∧ ∀ i, s'.ordermap.lookup i = none := by
  obtain ⟨⟨b, n⟩, hclear, heq⟩ := Option.map_eq_some_iff.mp h
  have hfst := congrArg Prod.fst heq
  dsimp only at hfst
  have hnone : ∀ i, (∅ : Map ℕ (OrderInfo Px)).lookup i = none := AList.lookup_empty
  rw [← hfst]
  refine ⟨⟨?_, ?_, execsOnly_clear _, hsims⟩, hnone⟩
  · change Agree (registry ops (∅ : Map ℕ (OrderInfo Px))) b.resting
    rw [clear_resting hclear, registry_empty]
    exact Agree.empty
  · intro i e he
    have hlookup := hnone i
    rw [show (∅ : Map ℕ (OrderInfo Px)).lookup i = some e from he] at hlookup
    cases hlookup

theorem gate_kept (s : State Px) (m : Mbo Px) : Kept s (s.gate m).1 := by
  unfold State.gate
  dsimp only
  split_ifs <;> exact ⟨rfl, rfl, rfl, fun _ hp => hp, rfl⟩

theorem firstRecord_kept (cfg : FeedCfg) (s : State Px) (txTime : ℕ) (isSst : Bool) :
    Kept s (s.firstRecord cfg txTime isSst) := by
  unfold State.firstRecord
  split
  · exact Kept.refl s
  · exact ⟨rfl, rfl, rfl, fun _ hp => hp, rfl⟩

theorem firstRecord_recovery (cfg : FeedCfg) (s : State Px) (txTime : ℕ) (isSst : Bool) :
    (s.firstRecord cfg txTime isSst).lastTxTim = s.lastTxTim ∧
      (s.firstRecord cfg txTime isSst).lastRecoveryTxTim = s.lastRecoveryTxTim ∧
      (s.firstRecord cfg txTime isSst).isInRecovery = s.isInRecovery := by
  unfold State.firstRecord
  split
  · exact ⟨rfl, rfl, rfl⟩
  · exact ⟨rfl, rfl, rfl⟩

theorem gate_passes_congr {s₁ : State Px} (m : Mbo Px) (htx : s₁.lastTxTim = s.lastTxTim)
    (hrec : s₁.lastRecoveryTxTim = s.lastRecoveryTxTim) : (s₁.gate m).2 = (s.gate m).2 := by
  unfold State.gate
  dsimp only
  rw [htx, hrec]
  split_ifs <;> simp_all

theorem gate_isInRecovery (s : State Px) (m : Mbo Px) :
    (s.gate m).1.isInRecovery = s.isInRecovery := by
  unfold State.gate
  dsimp only
  split_ifs <;> rfl

/-! ### The condition -/

/-- A snapshot re-sends a held order once the recovery has begun, and the gate lets it
    through. -/
def Resends (s : State Px) (m : Mbo Px) (e : OrderInfo Px) : Prop :=
  m.recovery = true ∧ s.isInRecovery = true ∧ (s.gate m).2 = true ∧
    s.ordermap.lookup m.orderID = some e

/-- A re-sent order repeats what is held of it, and an id that is handed out is free. -/
def MapSafe (ops : PriceOps Px) (s : State Px) : Event Px → Prop
  | .mbo m => (∀ e, Resends s m e → Repeats ops m e) ∧
      ((s.gate m).2 = true → TakesId ops s m → FreshId s m)
  | _ => True

instance (s : State Px) (m : Mbo Px) : Decidable (FreshId s m) :=
  decidable_of_iff (∀ x ∈ s.ordermap.entries, x.1 ≠ m.orderID → x.2.chopid ≠ s.nextId m)
    (forall_lookup_iff
      (Q := fun i (e : OrderInfo Px) => i ≠ m.orderID → e.chopid ≠ s.nextId m)).symm

instance (ops : PriceOps Px) (s : State Px) (m : Mbo Px) : Decidable (TakesId ops s m) :=
  match he : s.ordermap.lookup m.orderID with
  | none => decidable_of_iff (m.orderUpdateAction = 0) (by rw [TakesId, he])
  | some e =>
      decidable_of_iff
        (m.orderUpdateAction = 1 ∧
          (e.sz < m.displayQty ∨ ((getSide m.side).isSome ∧ ops.eq m.pxd e.px = false)))
        (by rw [TakesId, he])

instance (ops : PriceOps Px) (m : Mbo Px) (e : OrderInfo Px) : Decidable (Repeats ops m e) :=
  inferInstanceAs (Decidable (_ ∧ _ ∧ _))

instance (ops : PriceOps Px) (s : State Px) (m : Mbo Px) :
    Decidable (∀ e, Resends s m e → Repeats ops m e) :=
  decidable_of_iff
    (∀ e ∈ s.ordermap.lookup m.orderID,
      m.recovery = true ∧ s.isInRecovery = true ∧ (s.gate m).2 = true → Repeats ops m e) <| by
    constructor
    · intro h e hre
      exact h e hre.2.2.2 ⟨hre.1, hre.2.1, hre.2.2.1⟩
    · intro h e he hre
      exact h e ⟨hre.1, hre.2.1, hre.2.2, he⟩

instance (ops : PriceOps Px) (s : State Px) : ∀ e, Decidable (MapSafe ops s e)
  | .mbo _ => inferInstanceAs (Decidable (_ ∧ (_ → _ → _)))
  | .mboTrd _ | .chr | .gap | .eob | .sst _ _ | .other _ | .sim _ _ | .bbboSub _
  | .subscribe _ _ => inferInstanceAs (Decidable True)

theorem applyMbo_sound {m : Mbo Px} {bad : Bool} {o : List Sent}
    (hsimul : cfg.doCrossCheck = true) (hs : Sound cfg ops s)
    (hbad : bad = !onLadder cfg ops m.pxd) (hfresh : TakesId ops s m → FreshId s m)
    (hresend : ∀ e, m.recovery = true → s.ordermap.lookup m.orderID = some e → Repeats ops m e)
    (h : s.applyMbo cfg ops m bad = some (s', o)) : Sound cfg ops s' := by
  have hpx : bad = false → onLadder cfg ops m.pxd = true := by
    intro hgood
    rwa [hbad, Bool.not_eq_false'] at hgood
  rcases (applyMbo_cases h).2 with ⟨-, h⟩ | ⟨hgood, hnew, h⟩ | ⟨hgood, hchange, h⟩
  · exact onCancd_sound hsimul hs h
  · refine onAdd_sound hsimul hs (hpx hgood) (fun hnone => hfresh ?_) hresend h
    unfold TakesId
    rw [hnone]
    exact hnew
  · exact onCanc_sound hsimul hs (hpx hgood) hchange hfresh h

theorem freshId_congr {s₁ : State Px} {m : Mbo Px} (hmap : s₁.ordermap = s.ordermap)
    (hid : s₁.bookoid = s.bookoid) (h : TakesId ops s m → FreshId s m) :
    TakesId ops s₁ m → FreshId s₁ m := by
  unfold TakesId FreshId State.nextId at *
  rw [hmap, hid]
  exact h

/-- After the gate: a recovery that begins clears the book first. -/
theorem trackRecovery_sound {m : Mbo Px} {o : List Sent} (hs : Sound cfg ops s)
    (hresend : ∀ e, m.recovery = true → s.isInRecovery = true →
      s.ordermap.lookup m.orderID = some e → Repeats ops m e)
    (hfresh : TakesId ops s m → FreshId s m) (h : s.trackRecovery cfg m = some (s', o)) :
    Sound cfg ops s' ∧ (TakesId ops s' m → FreshId s' m) ∧
      ∀ e, m.recovery = true → s'.ordermap.lookup m.orderID = some e → Repeats ops m e := by
  rcases trackRecovery_cases h with ⟨-, -, s₁, hclear, rfl⟩ | ⟨hbegun, rfl, -⟩
  · obtain ⟨hsound, hnone⟩ : Sound cfg ops s₁ ∧ ∀ i, s₁.ordermap.lookup i = none :=
      clear_sound hclear hs.sims
    refine ⟨⟨hsound.agree, hsound.ladder, hsound.execs, hsound.sims⟩, ?_, ?_⟩
    · intro _ i e he
      rw [hnone] at he
      cases he
    · intro e _ he
      rw [hnone] at he
      cases he
  · refine ⟨⟨hs.agree, hs.ladder, hs.execs, hs.sims⟩, freshId_congr rfl rfl hfresh,
      fun e hrec => hresend e hrec ?_⟩
    by_contra hnot
    exact hbegun ⟨hrec, Bool.eq_false_iff.mpr hnot⟩

theorem onMbo_sound {m : Mbo Px} {o : List Sent} (hsimul : cfg.doCrossCheck = true)
    (hs : Sound cfg ops s) (hresend : ∀ e, Resends s m e → Repeats ops m e)
    (hfresh : (s.gate m).2 = true → TakesId ops s m → FreshId s m)
    (h : s.onMbo cfg ops m = some (s', o)) : Sound cfg ops s' := by
  have hstamped : Kept s (s.stamped m) := ⟨rfl, rfl, rfl, fun _ hp => hp, rfl⟩
  have hgated := hstamped.kept (gate_kept (s.stamped m) m)
  rcases onMbo_cases h with ⟨-, ⟨t, t', rfl⟩, -⟩ | ⟨-, -, rfl, -⟩ |
    ⟨-, hpass, s₁, o₁, o₂, htrack, happly, -⟩
  · exact hs.kept ⟨rfl, rfl, rfl, fun _ hp => hp, rfl⟩
  · exact hs.kept hgated
  · have hpasses : ((s.stamped m).gate m).2 = (s.gate m).2 := gate_passes_congr m rfl rfl
    rw [hpasses] at hpass
    have hrecovery : ((s.stamped m).gate m).1.isInRecovery = s.isInRecovery :=
      gate_isInRecovery (s.stamped m) m
    obtain ⟨hs₁, hfresh₁, hresend₁⟩ := trackRecovery_sound (hs.kept hgated)
      (fun e hrec hin he => hresend e ⟨hrec, hrecovery ▸ hin, hpass, hgated.ordermap ▸ he⟩)
      (freshId_congr hgated.ordermap hgated.bookoid (hfresh hpass)) htrack
    exact applyMbo_sound hsimul hs₁ rfl hfresh₁ hresend₁ happly

/-! ### Trades, control records and our own orders -/

theorem onTrd_sound {t : MboTrd} {o : List Sent} (hsimul : cfg.doCrossCheck = true)
    (hs : Sound cfg ops s) (h : s.onTrd cfg ops t = some (s', o)) : Sound cfg ops s' := by
  rcases onTrd_cases h with ⟨-, rfl, -⟩ | ⟨-, s₁, o₁, o₂, hadvanced, -, hslated⟩
  · exact hs
  · obtain ⟨hslate, hexecs⟩ := hs.execs.advance t.transactTime
    have hs₀ : Sound cfg ops { s with
        txtimEpoch := t.transactTime, sendtimEpoch := t.sendingTime
        execSlate := (s.execSlate.advance t.transactTime).1 } :=
      ⟨hs.agree, hs.ladder, hslate, hs.sims⟩
    have hs₁ := hs₀.kept (releaseExecs_kept hsimul hexecs hadvanced hs.sims)
    rcases hslated with ⟨-, rfl, -⟩ | ⟨trade, htrade, hrel⟩
    · exact hs₁
    · obtain ⟨hslate', hexecs'⟩ := hs₁.execs.onTrade htrade
      have hs₂ : Sound cfg ops { s₁ with execSlate := (s₁.execSlate.onTrade trade).1 } :=
        ⟨hs₁.agree, hs₁.ladder, hslate', hs₁.sims⟩
      exact hs₂.kept (releaseExecs_kept hsimul hexecs' hrel hs₁.sims)

/-- A channel reset clears; a gap and an end of burst leave the orders. -/
theorem onControl_sound {mev : Md} {o : List Sent} (hs : Sound cfg ops s)
    (hmev : mev = .clear ∨ mev = .gap ∨ mev = .eoburst)
    (h : s.onControl cfg mev = some (s', o)) : Sound cfg ops s' := by
  rcases onControl_cases hmev h with ⟨-, s₁, s₂, o₁, hbefore, hclear, hafter⟩ | ⟨-, hkept⟩
  · exact (clear_sound hclear (hs.kept hbefore).sims).1.kept hafter
  · exact hs.kept hkept

theorem onSim_sound {p : SimPl} {sender : Option ℕ} {o : List Sent} (hs : Sound cfg ops s)
    (h : s.onSim cfg p sender = some (s', o)) : Sound cfg ops s' := by
  obtain ⟨hsim, ⟨-, happly⟩ | ⟨-, -, rfl⟩⟩ := onSim_cases h
  · exact hs.kept (processMarketData_sim
      (p := { p with sendTim := s.currtim, txtimEpoch := s.currtim }) hsim happly)
  · refine ⟨hs.agree, hs.ladder, hs.execs, ?_⟩
    intro p' hp'
    rcases List.mem_append.mp hp' with hp' | hp'
    · exact hs.sims p' hp'
    · rw [List.mem_singleton.mp hp']
      exact hsim

/-! ### Runs -/

theorem handle_sound {e : Event Px} {o : List Sent} (hsimul : cfg.doCrossCheck = true)
    (hs : Sound cfg ops s) (hsafe : MapSafe ops s e) (h : handle cfg ops s e = some (s', o)) :
    Sound cfg ops s' := by
  have hfirst : ∀ txTime isSst, Sound cfg ops (s.firstRecord cfg txTime isSst) :=
    fun txTime isSst => hs.kept (firstRecord_kept cfg s txTime isSst)
  cases e with
  | mbo m =>
      obtain ⟨hresend, hfresh⟩ := hsafe
      have hkept := firstRecord_kept cfg s m.transactTime false
      obtain ⟨htx, hrectx, hrecovery⟩ := firstRecord_recovery cfg s m.transactTime false
      have hpasses := gate_passes_congr m htx hrectx
      refine onMbo_sound hsimul (hfirst _ _) ?_ ?_ h
      · rintro e ⟨hrec, hin, hpass, he⟩
        exact hresend e ⟨hrec, hrecovery ▸ hin, hpasses ▸ hpass, hkept.ordermap ▸ he⟩
      · intro hpass
        exact freshId_congr hkept.ordermap hkept.bookoid (hfresh (hpasses ▸ hpass))
  | mboTrd t => exact onTrd_sound hsimul (hfirst _ _) h
  | chr => exact onControl_sound hs (.inl rfl) h
  | gap => exact onControl_sound hs (.inr (.inl rfl)) h
  | eob => exact onControl_sound hs (.inr (.inr rfl)) h
  | sst txtim tradingStatus =>
      cases h
      exact (hfirst txtim true).kept ⟨rfl, rfl, rfl, fun _ hp => hp, rfl⟩
  | other txTime =>
      cases h
      exact hfirst txTime false
  | sim p sender => exact onSim_sound hs h
  | bbboSub sender =>
      cases h
      exact hs.kept ⟨rfl, rfl, rfl, fun _ hp => hp, rfl⟩
  | subscribe hi sender =>
      obtain ⟨-, -, rfl | rfl⟩ := subscribe_cases h <;>
        exact hs.kept ⟨rfl, rfl, rfl, fun _ hp => hp, rfl⟩

theorem sound_new (cfg : FeedCfg) (ops : PriceOps Px) : Sound cfg ops (State.new Px cfg) where
  agree := by
    have hempty : (State.new Px cfg).book.resting = fun _ => [] := by
      funext ⟨side, p⟩
      cases side <;> rfl
    rw [hempty]
    exact Agree.empty
  ladder i e he := by
    have hnone : (State.new Px cfg).ordermap.lookup i = none := AList.lookup_empty i
    rw [hnone] at he
    cases he
  execs := execsOnly_new _
  sims p hp := (List.not_mem_nil hp).elim

/-- **Soundness of runs.** -/
theorem run_sound {es : List (Event Px)} {out : List Sent} (hsimul : cfg.doCrossCheck = true)
    (hrun : run (handle cfg ops) (State.new Px cfg) es = some (s, out))
    (hsafe : AllSteps (handle cfg ops) (MapSafe ops) (State.new Px cfg) es) :
    Sound cfg ops s :=
  run_induction (I := fun _ _ s => Sound cfg ops s) (sound_new cfg ops)
    (fun _ _ _ _ _ _ hs hP h => handle_sound hsimul hs hP h) hsafe hrun

/-! ### What agreement says of the queues -/

theorem mem_resting {b : Book} {l : Side × ℤ} {x : LongId × ℤ} :
    x ∈ b.resting l ↔ ∃ o ∈ b.qs l.1 l.2, o.isSim = false ∧ (o.id, o.sz) = x := by
  unfold Book.resting
  rw [List.mem_map]
  constructor
  · rintro ⟨o, ho, hx⟩
    obtain ⟨hmem, hreal⟩ := mem_reals.mp ho
    exact ⟨o, hmem, hreal, hx⟩
  · rintro ⟨o, hmem, hreal, hx⟩
    exact ⟨o, mem_reals.mpr ⟨hmem, hreal⟩, hx⟩

/-- Where a key does not repeat, the items with the key of an item are that item. -/
theorem filter_key_of_mem {α β : Type*} [DecidableEq α] [DecidableEq β] {f : α → β}
    {l : List α} {a : α} (ha : a ∈ l) (hnodup : (l.map f).Nodup) :
    l.filter (fun x => f x == f a) = [a] := by
  have hsame : l.filter (fun x => f x == f a) = l.filter (fun x => x == a) := by
    apply List.filter_congr
    intro x hx
    by_cases hxa : x = a
    · simp [hxa]
    · have hkey : f x ≠ f a := fun heq => hxa (List.inj_on_of_nodup_map hnodup hx ha heq)
      simp [hxa, hkey]
  rw [hsame, List.filter_beq, List.count_eq_one_of_mem hnodup.of_map ha]
  rfl

/-- The id tells whether an order is ours. -/
theorem isSim_congr {o o' : Order} (hid : o.id = o'.id) : o.isSim = o'.isSim := by
  unfold Order.isSim
  rw [hid]

/-- A search for the id of an order of the exchange sees only such orders. -/
theorem filter_id_reals {o : Order} (hreal : o.isSim = false) (q : List Order) :
    q.filter (fun o' => o'.id == o.id) = (reals q).filter (fun o' => o'.id == o.id) := by
  unfold reals
  rw [List.filter_filter]
  apply List.filter_congr
  intro o' _
  by_cases hid : o'.id = o.id
  · rw [isSim_congr hid, hreal, Bool.not_false, Bool.and_true]
  · rw [beq_eq_false_iff_ne.mpr hid, Bool.false_and]

/-- `ordermap` and the queues agree.  A listed order is the one order with its id at its side
    and tick, with its size, and no other queue holds the id; an order of the exchange in a
    queue is of exactly one entry; and the search by which a Change or a Delete finds an order
    finds it. -/
structure MapAgrees (ops : PriceOps Px) (s : State Px) : Prop where
  listed : ∀ i e, s.ordermap.lookup i = some e →
    ∃ o, (s.book.qs e.side (ops.toPx e.px)).filter (fun o => o.id == e.chopid) = [o] ∧
      o.isSim = false ∧ o.sz = e.sz
  nowhereElse : ∀ i e, s.ordermap.lookup i = some e → ∀ side p o, o ∈ s.book.qs side p →
    o.id = e.chopid → side = e.side ∧ p = ops.toPx e.px
  resting : ∀ side p o, o ∈ s.book.qs side p → o.isSim = false →
    ∃! i, ∃ e, s.ordermap.lookup i = some e ∧ e.chopid = o.id
  reached : ∀ i e, s.ordermap.lookup i = some e →
    ∃ o, (s.book.qs e.side (ops.toPx e.px)).find? (fun o => o.id == e.chopid) = some o ∧
      o.sz = e.sz

theorem Sound.mapAgrees (hs : Sound cfg ops s) : MapAgrees ops s := by
  have hlisted : ∀ i e, s.ordermap.lookup i = some e →
      ∃ o, (s.book.qs e.side (ops.toPx e.px)).filter (fun o => o.id == e.chopid) = [o] ∧
        o.isSim = false ∧ o.sz = e.sz := by
    intro i e he
    obtain ⟨o, ho, hreal, hx⟩ := mem_resting.mp (hs.agree.rests i _ (registry_of_lookup he))
    obtain ⟨hid, hsz⟩ := Prod.mk.inj hx
    have hnodup := hs.agree.nodup (e.side, ops.toPx e.px)
    unfold Book.resting at hnodup
    rw [List.map_map] at hnodup
    refine ⟨o, ?_, hreal, hsz⟩
    rw [show e.chopid = o.id from hid.symm, filter_id_reals hreal]
    exact filter_key_of_mem (mem_reals.mpr ⟨ho, hreal⟩) hnodup
  refine ⟨hlisted, ?_, ?_, ?_⟩
  · intro i e he side p o ho hid
    obtain ⟨o', hfilter, hreal', -⟩ := hlisted i e he
    have hid' : o'.id = e.chopid := by
      have hmem : o' ∈ [o'] := List.mem_singleton_self o'
      rw [← hfilter] at hmem
      exact eq_of_beq (List.mem_filter.mp hmem).2
    have hreal : o.isSim = false := (isSim_congr (hid.trans hid'.symm)).trans hreal'
    have hloc := (hs.agree.unique (registry_of_lookup he)
      (mem_resting.mpr ⟨o, ho, hreal, rfl⟩ : (o.id, o.sz) ∈ s.book.resting (side, p)) hid).1
    exact Prod.mk.inj hloc
  · intro side p o ho hreal
    obtain ⟨i, hi⟩ :=
      hs.agree.listed (side, p) (o.id, o.sz) (mem_resting.mpr ⟨o, ho, hreal, rfl⟩)
    obtain ⟨e, he, hentry⟩ := registry_eq_some hi
    have hid : e.chopid = o.id := (congrArg Entry.id hentry).symm
    refine ⟨i, ⟨e, he, hid⟩, ?_⟩
    rintro j ⟨e', he', hid'⟩
    exact hs.agree.inj j i _ _ (registry_of_lookup he') hi hid'
  · intro i e he
    obtain ⟨o, hfilter, -, hsz⟩ := hlisted i e he
    refine ⟨o, ?_, hsz⟩
    rw [← List.head?_filter, hfilter]
    rfl

/-- **The map and the queues agree in simulation** in every run in which a snapshot re-sends
    a held order as it is held and no id is handed out twice. -/
theorem map_agrees {es : List (Event Px)} {out : List Sent} (hsimul : cfg.doCrossCheck = true)
    (hrun : run (handle cfg ops) (State.new Px cfg) es = some (s, out))
    (hsafe : AllSteps (handle cfg ops) (MapSafe ops) (State.new Px cfg) es) :
    MapAgrees ops s :=
  (run_sound hsimul hrun hsafe).mapAgrees

/-! ### Two runs -/

/-- A simulated asset of twenty prices. -/
def simulCfg : FeedCfg where
  toCfg := ⟨20, by decide, true⟩
  sym := 1
  exSymId := 1
  isOption := false
  inDailyBreak _ := false
  delay := 40
  cancelDelay := -1
  delay_le := .inl (by decide)
  feedDelay := 0
  som := none

/-- A bid record: a New (0), Change (1) or Delete (2). -/
def bidRecord (tim action oid : ℕ) (px : ℤ) (sz : Fin 100) (recovery : Bool) : Event ℤ :=
  .mbo
    { venue := 1, transactTime := tim, sendingTime := tim, orderUpdateAction := action
      securityID := 1, orderID := oid, pxd := px, displayQty := sz, displayQty_lt := by omega
      side := '0', endOfEvent := true, recovery := recovery }

/-- One of five. -/
def bidOfFive (tim action oid : ℕ) (px : ℤ) (recovery : Bool) : Event ℤ :=
  bidRecord tim action oid px 5 recovery

/-- Two orders; one shrinks, one moves up, one trades and is deleted; then a snapshot, which
    sends its order twice. -/
def bidRecords : List (Event ℤ) :=
  [bidRecord 5 0 1 10 9 false, bidRecord 5 0 2 10 7 false, bidRecord 6 1 1 10 5 false,
    bidRecord 6 1 2 11 7 false,
    .mboTrd
      { venue := 1, transactTime := 7, sendingTime := 7, lastQty := 2, orderID := 1
        endOfEvent := true },
    bidRecord 7 2 1 10 0 false, bidRecord 8 0 3 12 4 true, bidRecord 8 0 3 12 4 true]

theorem map_agrees_bids :
    ∃ s out, run (handle simulCfg tickOps) (State.new ℤ simulCfg) bidRecords = some (s, out) ∧
      s.ordermap.keys = [3] ∧ MapAgrees tickOps s := by
  have hrun : (run (handle simulCfg tickOps) (State.new ℤ simulCfg) bidRecords).map
      (fun r => r.1.ordermap.keys) = some [3] := by decide +kernel
  obtain ⟨⟨s, out⟩, hrun, hkeys⟩ := Option.map_eq_some_iff.mp hrun
  have hsafe : AllSteps (handle simulCfg tickOps) (MapSafe tickOps) (State.new ℤ simulCfg)
      bidRecords := by decide +kernel
  exact ⟨s, out, hrun, hkeys, map_agrees rfl hrun hsafe⟩

/-- The records of the exchange's orders: the prices of a New and a Change are on the ladder
    and their sizes positive. -/
def IsBookRecord (cfg : FeedCfg) (ops : PriceOps Px) : Event Px → Prop
  | .mbo m => m.orderUpdateAction ≤ 2 ∧
      (m.orderUpdateAction ≠ 2 → onLadder cfg ops m.pxd = true ∧ 0 < m.displayQty)
  | .mboTrd _ | .chr => True
  | _ => False

/-- A snapshot that sends an order at 10 and again at 11: the map follows, the queues do not,
    and the Delete of the order leaves it at 10 for good. -/
theorem resent_order_left_behind :
    ¬ ∀ es s out, run (handle simulCfg tickOps) (State.new ℤ simulCfg) es = some (s, out) →
      (∀ e ∈ es, IsBookRecord simulCfg tickOps e) → MapAgrees tickOps s := by
  intro hall
  have hrun : (run (handle simulCfg tickOps) (State.new ℤ simulCfg)
      [bidRecord 5 0 1 10 4 true, bidRecord 5 0 1 11 4 true, bidRecord 6 2 1 11 0 false]).map
      (fun r => (r.1.ordermap.keys, (r.1.book.qs .buy 10).map fun o => (o.id, o.isSim))) =
        some ([], [(⟨1, 0⟩, false)]) := by decide +kernel
  obtain ⟨⟨s, out⟩, hrun, heq⟩ := Option.map_eq_some_iff.mp hrun
  obtain ⟨hkeys, hqueue⟩ := Prod.mk.inj heq
  have hrecords : ∀ e ∈ [bidRecord 5 0 1 10 4 true, bidRecord 5 0 1 11 4 true,
      bidRecord 6 2 1 11 0 false], IsBookRecord simulCfg tickOps e := by
    simp [bidRecord, IsBookRecord, onLadder, tickOps, simulCfg]
  have hagrees := hall _ s out hrun hrecords
  have hmem : (⟨1, 0⟩, false) ∈ (s.book.qs .buy 10).map fun o => (o.id, o.isSim) := by
    rw [hqueue]
    exact List.mem_singleton_self _
  obtain ⟨o, ho, hreal⟩ := List.mem_map.mp hmem
  obtain ⟨i, ⟨e, he, -⟩, -⟩ := hagrees.resting .buy 10 o ho (Prod.mk.inj hreal).2
  have hin : i ∈ s.ordermap.keys := AList.lookup_isSome.mp (by rw [he]; rfl)
  rw [hkeys] at hin
  exact List.not_mem_nil hin

end KasparHft.OB
