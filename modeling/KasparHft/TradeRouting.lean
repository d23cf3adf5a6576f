import KasparHft.FeedHandler
import KasparHft.Machine

/-!
# Where trades go

What the entries themselves say of an order: the instrument that received its New or its
snapshot entry, until a Delete, and until the next channel reset if the order is to be live.
The map of the handler follows the first; it has no part in a channel reset, so it agrees
with the second exactly in the runs that are reset only when no order is left in it.
-/

namespace KasparHft.HandlerIf

open AssocMap Machine

variable {Px : Type} {cfg : Cfg Px} {s s' : State}

/-! ### What the entries say -/

/-- What a book entry says of an order; `none` when it says nothing. -/
def BookEntry.tells (e : BookEntry) (orderID : ℕ) : Option (Option ℤ) :=
  if e.orderID ≠ orderID then none
  else if e.orderUpdateAction = 0 then some (some e.securityID)
  else if e.orderUpdateAction = 2 then some none
  else none

/-- The instrument that received the New of an order that is not deleted.  The last callback
    stands first. -/
def homeOf (orderID : ℕ) : List Callback → Option ℤ
  | [] => none
  | .mdIncrementalRefreshBook e :: past => (e.tells orderID).getD (homeOf orderID past)
  | .snapshotFullRefreshOrderBook e :: past =>
      if e.orderID = orderID then some e.securityID else homeOf orderID past
  | .mdIncrementalRefreshTradeSummary _ :: past | .channelReset :: past | .gap :: past
  | .setIngressQlen _ :: past | .endOfPacket _ _ :: past => homeOf orderID past

/-- The same for a live order: a channel reset leaves none. -/
def liveIn (orderID : ℕ) : List Callback → Option ℤ
  | [] => none
  | .mdIncrementalRefreshBook e :: past => (e.tells orderID).getD (liveIn orderID past)
  | .snapshotFullRefreshOrderBook e :: past =>
      if e.orderID = orderID then some e.securityID else liveIn orderID past
  | .channelReset :: _ => none
  | .mdIncrementalRefreshTradeSummary _ :: past | .gap :: past
  | .setIngressQlen _ :: past | .endOfPacket _ _ :: past => liveIn orderID past

/-- The entry is of an instrument with a book. -/
def InUniverse (cfg : Cfg Px) : Callback → Prop
  | .mdIncrementalRefreshBook e => (cfg.bookOf e.securityID).isSome
  | .snapshotFullRefreshOrderBook e => (cfg.bookOf e.securityID).isSome
  | _ => True

def Sent.forwarded : Sent Px → Option (ℕ × Record Px)
  | .book b r => some (b, r)
  | .binrec _ => none

instance (cfg : Cfg Px) : ∀ e, Decidable (InUniverse cfg e)
  | .mdIncrementalRefreshBook _ | .snapshotFullRefreshOrderBook _ =>
      inferInstanceAs (Decidable (_ = true))
  | .mdIncrementalRefreshTradeSummary _ | .channelReset | .gap | .setIngressQlen _
  | .endOfPacket _ _ => inferInstanceAs (Decidable True)

/-- What goes to books. -/
def forwards (o : List (Sent Px)) : List (ℕ × Record Px) := o.filterMap Sent.forwarded

/-- A trade of an order that has a New goes to the book of the instrument that received it
    and nowhere else, and the map holds the live orders. -/
structure Routed (cfg : Cfg Px) (past : List Callback) (s : State) : Prop where
  trades : ∀ t sec, homeOf t.orderID past = some sec →
    ∃ b, cfg.bookOf sec = some b ∧
      forwards (s.mdIncrementalRefreshTradeSummary cfg t).2 = [(b, .mboTrd (s.tradeRecord cfg t))]
  map : ∀ orderID, s.orderidToSecurityid.lookup orderID = liveIn orderID past

/-! ### The map -/

theorem forwards_emit (cfg : Cfg Px) (r : Record Px) (books : List ℕ) :
    forwards (cfg.emit r books) = books.map fun b => (b, r) := by
  unfold Cfg.emit forwards
  rw [List.filterMap_append]
  have hrec : (if cfg.binrec then [Sent.binrec r] else []).filterMap Sent.forwarded = [] := by
    split <;> rfl
  have hbook : (Sent.forwarded ∘ fun b => Sent.book b r) = some ∘ fun b => (b, r) := rfl
  rw [hrec, List.nil_append, List.filterMap_map, hbook, List.filterMap_eq_map]

/-- A book entry writes what it says of its order. -/
theorem book_lookup (hon : cfg.disableMbo = false) (e : BookEntry) (orderID : ℕ) :
    (s.mdIncrementalRefreshBook cfg e).1.orderidToSecurityid.lookup orderID =
      (e.tells orderID).getD (s.orderidToSecurityid.lookup orderID) := by
  unfold State.mdIncrementalRefreshBook BookEntry.tells
  rw [hon]
  simp only [Bool.false_eq_true, if_false]
  by_cases hid : e.orderID = orderID
  · rw [if_neg (not_not_intro hid), ← hid]
    split
    · exact AList.lookup_insert s.orderidToSecurityid
    · split
      · exact AList.lookup_erase e.orderID s.orderidToSecurityid
      · rfl
  · rw [if_pos hid]
    have hne : orderID ≠ e.orderID := fun heq => hid heq.symm
    split
    · exact AList.lookup_insert_ne hne
    · split
      · exact AList.lookup_erase_ne hne
      · rfl

theorem snapshot_lookup (e : SnapshotEntry) (orderID : ℕ) :
    (s.snapshotFullRefreshOrderBook cfg e).1.orderidToSecurityid.lookup orderID =
      if e.orderID = orderID then some e.securityID
      else s.orderidToSecurityid.lookup orderID := by
  unfold State.snapshotFullRefreshOrderBook
  dsimp only
  split
  next hid =>
    rw [← hid]
    exact AList.lookup_insert s.orderidToSecurityid
  next hid => exact AList.lookup_insert_ne fun heq => hid heq.symm

theorem trade_map (cfg : Cfg Px) (s : State) (t : TradeEntry) :
    (s.mdIncrementalRefreshTradeSummary cfg t).1.orderidToSecurityid = s.orderidToSecurityid := by
  unfold State.mdIncrementalRefreshTradeSummary
  split <;> rfl

/-- The map of the handler is what the entries say, channel resets apart. -/
theorem map_homeOf (hon : cfg.disableMbo = false) {past : List Callback}
    (h : ∀ orderID, s.orderidToSecurityid.lookup orderID = homeOf orderID past) (e : Callback)
    (orderID : ℕ) :
    (handle cfg s e).1.orderidToSecurityid.lookup orderID = homeOf orderID (e :: past) := by
  cases e with
  | mdIncrementalRefreshBook e =>
      rw [homeOf, ← h orderID]
      exact book_lookup hon e orderID
  | mdIncrementalRefreshTradeSummary t =>
      rw [homeOf, ← h orderID, ← trade_map cfg s t]
      rfl
  | snapshotFullRefreshOrderBook e =>
      rw [homeOf, ← h orderID]
      exact snapshot_lookup e orderID
  | channelReset => exact h orderID
  | gap => exact h orderID
  | setIngressQlen qlen => exact h orderID
  | endOfPacket msgSeqNum sendingTime => exact h orderID

/-- A step keeps the map at the live orders, unless it is a reset that finds orders in it. -/
theorem map_liveIn (hon : cfg.disableMbo = false) {past : List Callback}
    (h : ∀ orderID, s.orderidToSecurityid.lookup orderID = liveIn orderID past) (e : Callback)
    (hreset : e = .channelReset → s.orderidToSecurityid.entries = []) (orderID : ℕ) :
    (handle cfg s e).1.orderidToSecurityid.lookup orderID = liveIn orderID (e :: past) := by
  cases e with
  | mdIncrementalRefreshBook e =>
      rw [liveIn, ← h orderID]
      exact book_lookup hon e orderID
  | mdIncrementalRefreshTradeSummary t =>
      rw [liveIn, ← h orderID, ← trade_map cfg s t]
      rfl
  | snapshotFullRefreshOrderBook e =>
      rw [liveIn, ← h orderID]
      exact snapshot_lookup e orderID
  | channelReset =>
      exact entries_eq_nil_iff.mp (hreset rfl) orderID
  | gap => exact h orderID
  | setIngressQlen qlen => exact h orderID
  | endOfPacket msgSeqNum sendingTime => exact h orderID

/-- What has a New has it of an instrument with a book. -/
theorem homeOf_inUniverse {past : List Callback} (h : ∀ e ∈ past, InUniverse cfg e) {orderID : ℕ}
    {sec : ℤ} (hhome : homeOf orderID past = some sec) : (cfg.bookOf sec).isSome := by
  induction past with
  | nil => cases hhome
  | cons e past ih =>
      obtain ⟨he, hpast⟩ := List.forall_mem_cons.mp h
      cases e with
      | mdIncrementalRefreshBook e =>
          rw [homeOf, BookEntry.tells] at hhome
          split at hhome
          · exact ih hpast hhome
          · split at hhome
            · cases hhome
              exact he
            · split at hhome
              · cases hhome
              · exact ih hpast hhome
      | mdIncrementalRefreshTradeSummary t => exact ih hpast hhome
      | snapshotFullRefreshOrderBook e =>
          rw [homeOf] at hhome
          split at hhome
          · cases hhome
            exact he
          · exact ih hpast hhome
      | channelReset => exact ih hpast hhome
      | gap => exact ih hpast hhome
      | setIngressQlen qlen => exact ih hpast hhome
      | endOfPacket msgSeqNum sendingTime => exact ih hpast hhome

/-- Trades follow the map. -/
theorem trade_forwards (hon : cfg.disableMbo = false) (t : TradeEntry) {sec : ℤ}
    (hmap : s.orderidToSecurityid.lookup t.orderID = some sec) (hbook : (cfg.bookOf sec).isSome) :
    ∃ b, cfg.bookOf sec = some b ∧
      forwards (s.mdIncrementalRefreshTradeSummary cfg t).2 =
        [(b, .mboTrd (s.tradeRecord cfg t))] := by
  obtain ⟨b, hb⟩ := Option.isSome_iff_exists.mp hbook
  refine ⟨b, hb, ?_⟩
  unfold State.mdIncrementalRefreshTradeSummary
  rw [hon, hmap]
  simp only [Bool.false_eq_true, if_false, Option.bind_some, hb, Option.toList_some, forwards_emit,
    List.map_cons, List.map_nil]

/-! ### Runs -/

/-- The callbacks as a machine. -/
def step (cfg : Cfg Px) (s : State) (e : Callback) : Option (State × List (Sent Px)) :=
  some (handle cfg s e)

/-- A channel reset finds no order in the map. -/
def ResetSafe (s : State) (e : Callback) : Prop :=
  match e with
  | .channelReset => s.orderidToSecurityid.entries = []
  | _ => True

instance (s : State) : ∀ e, Decidable (ResetSafe s e)
  | .channelReset => inferInstanceAs (Decidable (_ = []))
  | .mdIncrementalRefreshBook _ | .mdIncrementalRefreshTradeSummary _
  | .snapshotFullRefreshOrderBook _ | .gap | .setIngressQlen _ | .endOfPacket _ _ =>
      inferInstanceAs (Decidable True)

theorem step_eq_some {e : Callback} {o : List (Sent Px)} (h : step cfg s e = some (s', o)) :
    s' = (handle cfg s e).1 := by
  exact (congrArg Prod.fst (Option.some.inj h)).symm

theorem homeOf_of_run (hon : cfg.disableMbo = false) {es : List Callback} {out : List (Sent Px)}
    (hrun : run (step cfg) {} es = some (s, out)) (orderID : ℕ) :
    s.orderidToSecurityid.lookup orderID = homeOf orderID es.reverse := by
  refine run_invariant (I := fun past _ s => ∀ orderID,
    s.orderidToSecurityid.lookup orderID = homeOf orderID past.reverse) ?_ ?_ hrun orderID
  · exact AList.lookup_empty
  · intro past _ s e s' o hI hstep
    rw [List.reverse_concat, step_eq_some hstep]
    exact map_homeOf hon hI e

/-- In a run that is reset only when no order is left, every state routes. -/
theorem routed_of_safe (hon : cfg.disableMbo = false) {es : List Callback}
    {out : List (Sent Px)} (huniverse : ∀ e ∈ es, InUniverse cfg e)
    (hsafe : AllSteps (step cfg) ResetSafe {} es) (hrun : run (step cfg) {} es = some (s, out)) :
    Routed cfg es.reverse s := by
  refine ⟨?_, ?_⟩
  · intro t sec hhome
    have hmap := homeOf_of_run hon hrun t.orderID
    rw [hhome] at hmap
    have hpast : ∀ e ∈ es.reverse, InUniverse cfg e := fun e he =>
      huniverse e (List.mem_reverse.mp he)
    exact trade_forwards hon t hmap (homeOf_inUniverse hpast hhome)
  · refine run_induction (I := fun past _ s => ∀ orderID,
      s.orderidToSecurityid.lookup orderID = liveIn orderID past.reverse) ?_ ?_ hsafe hrun
    · exact AList.lookup_empty
    · intro past _ s e s' o hI hreset hstep
      rw [List.reverse_concat, step_eq_some hstep]
      refine map_liveIn hon hI e ?_
      rintro rfl
      exact hreset

/-- **Trades are routed and the map holds the live orders**, in every state of a run, exactly
    when each channel reset of the run finds the map empty. -/
theorem routed_iff (hon : cfg.disableMbo = false) (es : List Callback)
    (huniverse : ∀ e ∈ es, InUniverse cfg e) :
    (∀ past rest s out, es = past ++ rest → run (step cfg) {} past = some (s, out) →
        Routed cfg past.reverse s) ↔
      AllSteps (step cfg) ResetSafe {} es := by
  constructor
  · intro hrouted
    apply allSteps_of_reached
    intro past e rest s out hes hrun
    cases e with
    | channelReset =>
        -- the reset leaves the map and no live order
        have hnext : run (step cfg) {} (past ++ [.channelReset]) =
            some ((handle cfg s .channelReset).1, out ++ (handle cfg s .channelReset).2) :=
          run_concat.mpr ⟨s, out, _, hrun, rfl, rfl⟩
        have hafter := hrouted (past ++ [.channelReset]) rest _ _ (by simp [hes]) hnext
        refine entries_eq_nil_iff.mpr fun orderID => ?_
        have hlive := hafter.map orderID
        rw [List.reverse_concat] at hlive
        exact hlive
    | _ => trivial
  · intro hsafe past rest s out hes hrun
    subst hes
    refine routed_of_safe hon ?_ (allSteps_append.mp hsafe).1 hrun
    exact fun e he => huniverse e (List.mem_append_left _ he)

/-! ### Two instruments -/

/-- Two instruments with a book each. -/
def twoBooks : Cfg ℤ where
  xchg := 1
  disableMbo := false
  binrec := true
  toPrice mantissa _ := mantissa
  mboOrderBooks := [some 70, none, some 80]
  securityidToAssetId := (AList.insert 500 0 ∅ : Map ℤ ℤ).insert 600 2

/-- A New (0), Change (1) or Delete (2). -/
def bookEntry (orderID action : ℕ) (securityID : ℤ) : Callback :=
  .mdIncrementalRefreshBook
    { recvTime := 5, msgSeqNum := 1, transactTime := 5, sendingTime := 5, securityID := securityID
      pxMantissa := 10, pxExponent := 0, side := '0', displayQty := 3, orderID := orderID
      orderUpdateAction := action, priority := 1, lastQuote := false, endOfEvent := true
      recovery := false }

/-- An order in each instrument; one is deleted, one changed; a reset between two orders. -/
def twoOrders : List Callback :=
  [bookEntry 1 0 500, bookEntry 1 2 500, .channelReset, bookEntry 2 0 600, bookEntry 2 1 600]

theorem routed_two_orders :
    (∀ e ∈ twoOrders, InUniverse twoBooks e) ∧ ∀ past rest s out, twoOrders = past ++ rest →
      run (step twoBooks) {} past = some (s, out) → Routed twoBooks past.reverse s := by
  have huniverse : ∀ e ∈ twoOrders, InUniverse twoBooks e := by decide
  exact ⟨huniverse, (routed_iff rfl twoOrders huniverse).mpr (by decide)⟩

/-- A channel reset leaves the order in the map. -/
theorem reset_leaves_order :
    ¬ ∀ (es : List Callback) (s : State) (out : List (Sent ℤ)),
        (∀ e ∈ es, InUniverse twoBooks e) → run (step twoBooks) {} es = some (s, out) →
        Routed twoBooks es.reverse s := by
  intro hall
  have huniverse : ∀ e ∈ [bookEntry 1 0 500, .channelReset], InUniverse twoBooks e := by decide
  have hmap := (hall _ _ _ huniverse rfl).map 1
  exact absurd hmap (by decide)

end KasparHft.HandlerIf
