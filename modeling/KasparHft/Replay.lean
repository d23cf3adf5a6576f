import KasparHft.Bfa
import KasparHft.MachineFamily
import KasparHft.TachBookSlate

/-!
# Live and replay

The same callbacks of a channel by two ways to the same books.  Live, the handler sends each
record to the books it is for.  In a replay the books get the recording of the same callbacks
from the actor that reads it.

The two ways keep different maps of orders, and send a trade to different books: live to the book
of the instrument that its order came in, in a replay to every book of the venue.  What a callback
brings a book by either way is said here (`Reaches`); that the books agree is in `ReplayAgrees`.
-/

namespace KasparHft.HandlerIf

/-! ### Callbacks -/

/-- The order and the instrument that a callback names. -/
def Callback.names : Callback → Option (ℕ × ℤ)
  | .mdIncrementalRefreshBook e => some (e.orderID, e.securityID)
  | .snapshotFullRefreshOrderBook e => some (e.orderID, e.securityID)
  | .mdIncrementalRefreshTradeSummary _ | .channelReset | .gap | .setIngressQlen _
  | .endOfPacket _ _ => none

/-- The transaction time of a callback that brings a record. -/
def Callback.transactTime : Callback → Option ℕ
  | .mdIncrementalRefreshBook e => some e.transactTime
  | .mdIncrementalRefreshTradeSummary e => some e.transactTime
  | .snapshotFullRefreshOrderBook e => some e.transactTime
  | .channelReset | .gap | .setIngressQlen _ | .endOfPacket _ _ => none

/-- No order is named with two instruments. -/
def UniqueOrderIds (es : List Callback) : Prop :=
  ∀ x ∈ es.filterMap Callback.names, ∀ y ∈ es.filterMap Callback.names, x.1 = y.1 → x.2 = y.2

instance (es : List Callback) : Decidable (UniqueOrderIds es) :=
  inferInstanceAs (Decidable (∀ x ∈ es.filterMap Callback.names,
    ∀ y ∈ es.filterMap Callback.names, x.1 = y.1 → x.2 = y.2))

theorem UniqueOrderIds.of_append {es fs : List Callback} (h : UniqueOrderIds (es ++ fs)) :
    UniqueOrderIds es := by
  intro x hx y hy
  have hleft : ∀ z ∈ es.filterMap Callback.names, z ∈ (es ++ fs).filterMap Callback.names := by
    intro z hz
    rw [List.filterMap_append]
    exact List.mem_append_left _ hz
  exact h x (hleft x hx) y (hleft y hy)

end KasparHft.HandlerIf

namespace KasparHft.Replay

open AssocMap Machine HandlerIf FillSlate

variable {Px : Type}

/-! ### Books -/

/-- What a book does: a message it sends, or a fill that its slate releases to it. -/
inductive Act (Px : Type) where
  | sent (o : TachBook.Out Px)
  | released (f : Released Px (Payload Px))

/-- A published trade. -/
def Act.trade : Act Px → Option (Payload Px)
  | .sent o => o.trade
  | .released _ => none

/-- A released fill, with its role. -/
def Act.fill : Act Px → Option (Released Px (Payload Px))
  | .sent _ => none
  | .released f => some f

/-- A record in a book, whose asset stands as `a` in the reference data. -/
def book (ops : PriceOps Px) (a : TachBook.Asset) (s : TachBook.State Px) (l3 : L3 Px) :
    Option (TachBook.State Px × List (Act Px)) :=
  (TachBook.step ops s (.data a l3)).map fun r =>
    (r.1, (s.slateAfter ops a l3).2.map .released ++ r.2.map .sent)

/-- All the books. -/
def books (ops : PriceOps Px) (ref : ℕ → TachBook.Asset) :
    (ℕ → TachBook.State Px) → ℕ × L3 Px → Option ((ℕ → TachBook.State Px) × List (ℕ × Act Px)) :=
  family fun b => book ops (ref b)

/-- Records as the books read them. -/
def toBooks (l : List (ℕ × Record Px)) : List (ℕ × L3 Px) := l.map fun x => (x.1, x.2.l3)

/-! ### The two ways -/

section Ways

variable (ops : PriceOps Px) (ref : ℕ → TachBook.Asset) (cfg : HandlerIf.Cfg Px) (bfa : Bfa.Cfg)
  (start : ℕ → TachBook.State Px)

/-- The books after live callbacks, and what they did. -/
def live (es : List Callback) : Option ((ℕ → TachBook.State Px) × List (ℕ × Act Px)) :=
  (run (HandlerIf.step cfg) {} es).bind fun h =>
    run (books ops ref) start (toBooks (forwards h.2))

/-- The books after a replay of the recording of the same callbacks. -/
def replay (es : List Callback) : Option ((ℕ → TachBook.State Px) × List (ℕ × Act Px)) :=
  (run (HandlerIf.step cfg) {} es).bind fun h =>
    (run (Bfa.process bfa) {} (recording h.2)).bind fun q =>
      run (books ops ref) start (toBooks q.2)

end Ways

/-- The trades a book published. -/
def trades (b : ℕ) (o : List (ℕ × Act Px)) : List (Payload Px) := (part b o).filterMap Act.trade

/-- The fills released to a book. -/
def fills (b : ℕ) (o : List (ℕ × Act Px)) : List (Released Px (Payload Px)) :=
  (part b o).filterMap Act.fill

/-- A book by the two ways: the same orders and levels, and, with what its slate still holds, the
    same fills with the same roles and the same trades. -/
structure SameBook (b : ℕ) (l r : (ℕ → TachBook.State Px) × List (ℕ × Act Px)) : Prop where
  orders : (l.1 b).orders = (r.1 b).orders
  levels : ∀ sd, ((l.1 b).side sd).levels = ((r.1 b).side sd).levels
  fills : fills b l.2 ++ (l.1 b).fillSlate.holds = fills b r.2 ++ (r.1 b).fillSlate.holds
  trades : trades b l.2 ++ TachBook.published (l.1 b).fillSlate.holds =
    trades b r.2 ++ TachBook.published (r.1 b).fillSlate.holds

/-- The two ways both abort, or leave every book the same. -/
def Agree : Option ((ℕ → TachBook.State Px) × List (ℕ × Act Px)) →
    Option ((ℕ → TachBook.State Px) × List (ℕ × Act Px)) → Prop
  | some l, some r => ∀ b, SameBook b l r
  | none, none => True
  | _, _ => False

/-! ### What is asked of the two ways -/

/-- The books are registered once, under the same instruments on both sides; there is a recorder,
    and the channel has a venue. -/
structure Registered (cfg : HandlerIf.Cfg Px) (bfa : Bfa.Cfg) : Prop where
  recorded : cfg.binrec = true
  venue : cfg.xchg ≠ xUNI
  adapter : ∀ securityID, bfa.bookOf cfg.xchg securityID = cfg.bookOf securityID
  once : ∀ sec sec' b, cfg.bookOf sec = some b → cfg.bookOf sec' = some b → sec = sec'
  listed : ∀ b, b ∈ cfg.allBooks ↔ ∃ sec, cfg.bookOf sec = some b
  nodup : cfg.allBooks.Nodup

/-- A book before the first record. -/
structure Fresh (s : TachBook.State Px) : Prop where
  orders : s.orders = ∅
  fillSlate : s.fillSlate = .new .atDecision

/-- The transaction times of callbacks. -/
def times (es : List Callback) : List ℕ := es.filterMap Callback.transactTime

/-- What stands between two equal values is equal to them. -/
def Contiguous (ts : List ℕ) : Prop :=
  ∀ k < ts.length, ∀ j < k, ∀ i < j, ts[i]? = ts[k]? → ts[j]? = ts[k]?

instance (ts : List ℕ) : Decidable (Contiguous ts) :=
  inferInstanceAs (Decidable (∀ k < ts.length, ∀ j < k, ∀ i < j, ts[i]? = ts[k]? → ts[j]? = ts[k]?))

theorem Contiguous.of_append {ts us : List ℕ} (h : Contiguous (ts ++ us)) : Contiguous ts := by
  intro k hk j hj i hi heq
  have hlen : k < (ts ++ us).length := by
    rw [List.length_append]
    omega
  have hall := h k hlen j hj i hi
  rw [List.getElem?_append_left (by omega), List.getElem?_append_left (by omega),
    List.getElem?_append_left (by omega)] at hall
  exact hall heq

theorem times_append (es fs : List Callback) : times (es ++ fs) = times es ++ times fs :=
  List.filterMap_append

/-- A value that has come and is not the last one does not come again. -/
theorem Contiguous.ne_of_concat {ts : List ℕ} {t u : ℕ} (h : Contiguous (ts ++ [u]))
    (hmem : t ∈ ts) (hlast : ts.getLast? ≠ some t) : u ≠ t := by
  rintro rfl
  obtain ⟨i, hget⟩ := List.mem_iff_getElem?.mp hmem
  have hi : i < ts.length := (List.getElem?_eq_some_iff.mp hget).1
  rw [List.getLast?_eq_getElem?] at hlast
  have hlen : ts.length < (ts ++ [u]).length := by
    rw [List.length_append, List.length_singleton]
    omega
  have hne : i ≠ ts.length - 1 := by
    rintro rfl
    exact hlast hget
  have hend : (ts ++ [u])[ts.length]? = some u := List.getElem?_concat_length
  have hall := h ts.length hlen (ts.length - 1) (by omega) i (by omega)
  rw [hend, List.getElem?_append_left hi, List.getElem?_append_left (by omega)] at hall
  exact hlast (hall hget)

/-! ### The maps of orders -/

variable {cfg : HandlerIf.Cfg Px} {bfa : Bfa.Cfg} {h h' : HandlerIf.State} {f : Bfa.State Px}

/-- What a record says of an order, as the handler takes it. -/
def tells (l3 : L3 Px) (orderID : ℕ) : Option (Option ℤ) :=
  match l3 with
  | .mbo m =>
      if m.orderID ≠ orderID then none
      else if m.orderUpdateAction = 0 then some (some m.securityID)
      else if m.orderUpdateAction = 2 then some none
      else none
  | .mboTrd _ | .chr | .gap | .other => none

/-- The actor knows every order that the handler has an instrument of. -/
def Known (h : HandlerIf.State) (f : Bfa.State Px) : Prop :=
  ∀ orderID sec, h.orderidToSecurityid.lookup orderID = some sec → f.Knows orderID

/-- The handler has an order in the instrument that a callback named it with. -/
def Named (es : List Callback) (h : HandlerIf.State) : Prop :=
  ∀ orderID sec, h.orderidToSecurityid.lookup orderID = some sec →
    (orderID, sec) ∈ es.filterMap Callback.names

/-- A book record that is recorded keeps the actor in step. -/
theorem Known.note (hknown : Known h f) (r : MboRecord Px)
    (hmap : ∀ orderID, h'.orderidToSecurityid.lookup orderID =
      (tells (.mbo r.toMbo) orderID).getD (h.orderidToSecurityid.lookup orderID)) :
    Known h' (f.note r) := by
  intro orderID sec hlookup
  rw [hmap] at hlookup
  dsimp only [tells] at hlookup
  rw [Bfa.note_knows]
  split
  next hid =>
    intro hdelete
    rw [if_neg (not_not_intro hid), hdelete] at hlookup
    cases hlookup
  next hid =>
    rw [if_pos hid] at hlookup
    exact hknown orderID sec hlookup

/-! ### What reaches a book -/

/-- What a callback brings a book live and in a replay: the same record, nothing, or in the replay
    alone a trade of an order that the handler has not in an instrument of the book. -/
inductive Reaches (cfg : HandlerIf.Cfg Px) (b : ℕ) (h h' : HandlerIf.State) (e : Callback) :
    List (L3 Px) → List (L3 Px) → Prop
  | both (l3 : L3 Px) (htime : e.transactTime = TachBook.timeOf l3)
      (hmap : ∀ orderID, h'.orderidToSecurityid.lookup orderID =
        (tells l3 orderID).getD (h.orderidToSecurityid.lookup orderID))
      (hmine : ∀ m, l3 = .mbo m → cfg.bookOf m.securityID = some b) : Reaches cfg b h h' e [l3] [l3]
  | neither (hmap : ∀ orderID, h'.orderidToSecurityid.lookup orderID =
        h.orderidToSecurityid.lookup orderID ∨
          ∃ sec, e.names = some (orderID, sec) ∧ cfg.bookOf sec ≠ some b) : Reaches cfg b h h' e [] []
  | late (t : MboTrd) (htime : e.transactTime = some t.transactTime)
      (hmap : ∀ orderID, h'.orderidToSecurityid.lookup orderID =
        h.orderidToSecurityid.lookup orderID)
      (hother : ∀ sec, h.orderidToSecurityid.lookup t.orderID = some sec →
        cfg.bookOf sec ≠ some b) : Reaches cfg b h h' e [] [.mboTrd t]

theorem toBooks_append (l₁ l₂ : List (ℕ × Record Px)) :
    toBooks (l₁ ++ l₂) = toBooks l₁ ++ toBooks l₂ := List.map_append

/-- What a list of books gets of a record. -/
theorem part_toBooks (b : ℕ) (r : Record Px) (bs : List ℕ) :
    part b (toBooks (bs.map fun b => (b, r))) = List.replicate (bs.count b) r.l3 := by
  unfold toBooks
  rw [List.map_map]
  exact part_map_const b r.l3 bs

theorem count_toList (b : ℕ) (x : Option ℕ) : x.toList.count b = if x = some b then 1 else 0 := by
  cases x with
  | none => rfl
  | some c =>
      rw [Option.toList_some, List.count_singleton]
      simp only [beq_iff_eq, Option.some.injEq]

/-- The books of the venue are the books that the handler lists. -/
theorem Registered.books_perm (hreg : Registered cfg bfa) :
    (bfa.books cfg.xchg).Perm cfg.allBooks := by
  have hmem : ∀ b, b ∈ bfa.books cfg.xchg ↔ ∃ sec, cfg.bookOf sec = some b := by
    intro b
    unfold Bfa.Cfg.books
    rw [List.mem_filterMap]
    constructor
    · rintro ⟨⟨sec, x⟩, he, rfl⟩
      refine ⟨sec, ?_⟩
      rw [← hreg.adapter, Bfa.Cfg.bookOf, AList.mem_lookup_iff.mpr he]
      rfl
    · rintro ⟨sec, hsec⟩
      rw [← hreg.adapter, Bfa.Cfg.bookOf, Option.join_eq_some_iff] at hsec
      exact ⟨⟨sec, some b⟩, AList.mem_lookup_iff.mp hsec, rfl⟩
  have hnodup : (bfa.books cfg.xchg).Nodup := by
    refine List.pairwise_filterMap.mpr ?_
    have hkeys := List.nodupKeys_iff_pairwise.mp (bfa.dataAdapter cfg.xchg).nodupKeys
    refine hkeys.imp_of_mem ?_
    rintro ⟨sec, x⟩ ⟨sec', y⟩ he he' hne b rfl b' rfl rfl
    -- two instruments of one book
    refine hne (hreg.once sec sec' b ?_ ?_)
    · rw [← hreg.adapter, Bfa.Cfg.bookOf, AList.mem_lookup_iff.mpr he]
      rfl
    · rw [← hreg.adapter, Bfa.Cfg.bookOf, AList.mem_lookup_iff.mpr he']
      rfl
  refine (List.perm_ext_iff_of_nodup hnodup hreg.nodup).mpr fun b => ?_
  rw [hmem, hreg.listed]

/-- Every book listed is listed once. -/
theorem Registered.count_allBooks (hreg : Registered cfg bfa) (b : ℕ) :
    cfg.allBooks.count b = if b ∈ cfg.allBooks then 1 else 0 := by
  split
  next hmem => exact List.count_eq_one_of_mem hreg.nodup hmem
  next hmem => exact List.count_eq_zero_of_not_mem hmem

theorem recording_emit (hrec : cfg.binrec = true) (r : Record Px) (bs : List ℕ) :
    recording (cfg.emit r bs) = [r.readBack] := by
  unfold recording HandlerIf.Cfg.emit
  rw [hrec, List.filterMap_append, List.filterMap_map]
  have hbooks : bs.filterMap (Sent.recorded ∘ fun b => Sent.book b r) = [] :=
    List.filterMap_eq_nil_iff.mpr fun b _ => rfl
  rw [hbooks]
  rfl

theorem recording_emitAll (hrec : cfg.binrec = true) (r : Record Px) :
    recording (cfg.emitAll r) = [r.readBack] := by
  unfold recording HandlerIf.Cfg.emitAll
  rw [hrec, List.filterMap_append, List.filterMap_map]
  have hbooks : cfg.allBooks.filterMap (Sent.recorded ∘ fun b => Sent.book b r) = [] :=
    List.filterMap_eq_nil_iff.mpr fun b _ => rfl
  rw [hbooks]
  rfl

theorem forwards_emitAll (cfg : HandlerIf.Cfg Px) (r : Record Px) :
    forwards (cfg.emitAll r) = cfg.allBooks.map fun b => (b, r) := by
  unfold forwards HandlerIf.Cfg.emitAll
  have hrec : (if cfg.binrec then [Sent.binrec r] else []).filterMap Sent.forwarded = [] := by
    split <;> rfl
  have hbook : (Sent.forwarded ∘ fun b => Sent.book b r) = some ∘ fun b => (b, r) := rfl
  rw [List.filterMap_append, hrec, List.append_nil, List.filterMap_map, hbook,
    List.filterMap_eq_map]

/-- The callback does what the two ways do: the actor reads what was recorded, knows the orders
    the handler knows, and every book is reached. -/
def Follows (cfg : HandlerIf.Cfg Px) (bfa : Bfa.Cfg) (h : HandlerIf.State) (f : Bfa.State Px)
    (e : Callback) : Prop :=
  ∃ f' msgs, run (Bfa.process bfa) f (recording (handle cfg h e).2) = some (f', msgs) ∧
    Known (handle cfg h e).1 f' ∧
    ∀ b, Reaches cfg b h (handle cfg h e).1 e (part b (toBooks (forwards (handle cfg h e).2)))
      (part b (toBooks msgs))

/-- A record for the one book of an instrument. -/
theorem follows_mbo (hreg : Registered cfg bfa) (hknown : Known h f) {e : Callback}
    {r : MboRecord Px} (hvenue : r.venue = cfg.xchg)
    (htime : e.transactTime = some r.transactTime)
    (hnames : e.names = some (r.orderID, r.securityID))
    (hsent : (handle cfg h e).2 = cfg.emit (.mbo r) (cfg.bookOf r.securityID).toList)
    (hmap : ∀ orderID, (handle cfg h e).1.orderidToSecurityid.lookup orderID =
      (tells (.mbo r.toMbo) orderID).getD (h.orderidToSecurityid.lookup orderID)) :
    Follows cfg bfa h f e := by
  have hread : Bfa.process bfa f (Record.mbo r).readBack =
      some (f.note { r with ingressQlen := 0, pktEntryIdx := 0, pktSeqNum := 0 },
        bfa.dispatch r.venue r.securityID (Record.mbo r).readBack) :=
    if_neg (hvenue ▸ hreg.venue)
  have hknown' := hknown.note { r with ingressQlen := 0, pktEntryIdx := 0, pktSeqNum := 0 } hmap
  have hrun := (run_one f _).trans hread
  rw [← recording_emit hreg.recorded (.mbo r) (cfg.bookOf r.securityID).toList, ← hsent] at hrun
  refine ⟨_, _, hrun, hknown', fun b => ?_⟩
  rw [hsent, forwards_emit, part_toBooks, Bfa.Cfg.dispatch, part_toBooks, hvenue, hreg.adapter,
    l3_readBack, count_toList]
  split
  next hmine =>
    refine .both (.mbo r.toMbo) htime hmap ?_
    rintro m ⟨⟩
    exact hmine
  next hother =>
    refine .neither fun orderID => ?_
    by_cases hid : r.orderID = orderID
    · exact .inr ⟨r.securityID, hid ▸ hnames, hother⟩
    · have htells : tells (.mbo r.toMbo) orderID = none := if_pos hid
      left
      rw [hmap, htells]
      rfl

/-- A trade: the actor broadcasts what it knows, which is at least what the handler sends. -/
theorem follows_trade (hreg : Registered cfg bfa) (hknown : Known h f)
    (hon : cfg.disableMbo = false) (t : TradeEntry) :
    Follows cfg bfa h f (.mdIncrementalRefreshTradeSummary t) := by
  set r := h.tradeRecord cfg t with hr
  set bs := (h.orderidToSecurityid.lookup t.orderID).bind cfg.bookOf with hbs
  have hhandle : handle cfg h (.mdIncrementalRefreshTradeSummary t) =
      (h.countEntry, cfg.emit (.mboTrd r) bs.toList) := by
    dsimp only [handle, State.mdIncrementalRefreshTradeSummary]
    rw [hon]
    rfl
  have hsame : ∀ orderID, h.countEntry.orderidToSecurityid.lookup orderID =
      h.orderidToSecurityid.lookup orderID := fun _ => rfl
  unfold Follows
  rw [hhandle, recording_emit hreg.recorded]
  dsimp only
  by_cases hknows : f.Knows t.orderID
  · have hlookup : ¬ (f.mboUnorderedMap.lookup t.orderID).isNone = true := by
      rw [Option.isNone_iff_eq_none, AList.lookup_eq_none]
      exact not_not_intro hknows
    have hread : Bfa.process bfa f (Record.mboTrd r).readBack =
        some (f, bfa.broadcast cfg.xchg (Record.mboTrd r).readBack) :=
      (if_neg hlookup).trans (if_neg hreg.venue)
    refine ⟨f, _, (run_one f _).trans hread, hknown, fun b => ?_⟩
    rw [forwards_emit, part_toBooks, Bfa.Cfg.broadcast, part_toBooks, l3_readBack, count_toList,
      hreg.books_perm.count_eq, hreg.count_allBooks]
    by_cases hmine : bs = some b
    · obtain ⟨sec, -, hsec⟩ := Option.bind_eq_some_iff.mp (hbs ▸ hmine)
      rw [if_pos hmine, if_pos ((hreg.listed b).mpr ⟨sec, hsec⟩)]
      exact .both (.mboTrd r.toMboTrd) rfl hsame fun m hm => by cases hm
    · rw [if_neg hmine]
      split
      · refine .late r.toMboTrd rfl hsame fun sec hsec hbook => hmine ?_
        exact hbs.trans (Option.bind_eq_some_iff.mpr ⟨sec, hsec, hbook⟩)
      · exact .neither fun orderID => .inl (hsame orderID)
  · have hlookup : (f.mboUnorderedMap.lookup t.orderID).isNone = true := by
      rw [Option.isNone_iff_eq_none, AList.lookup_eq_none]
      exact hknows
    have hread : Bfa.process bfa f (Record.mboTrd r).readBack = some (f, []) := if_pos hlookup
    have hnone : bs = none := by
      rcases hl : h.orderidToSecurityid.lookup t.orderID with _ | sec
      · rw [hbs, hl]
        rfl
      · exact absurd (hknown _ _ hl) hknows
    refine ⟨f, _, (run_one f _).trans hread, hknown, fun b => ?_⟩
    rw [hnone, forwards_emit]
    exact .neither fun orderID => .inl (hsame orderID)

/-- A record for every book. -/
theorem follows_all (hreg : Registered cfg bfa) (hknown : Known h f) {e : Callback} {r : Record Px}
    (hhandle : handle cfg h e = (h, cfg.emitAll r)) (htime : e.transactTime = none)
    (hread : Bfa.process bfa f r.readBack = some (f, bfa.broadcast cfg.xchg r.readBack))
    (hl3 : r.l3 = .chr ∨ r.l3 = .gap) : Follows cfg bfa h f e := by
  unfold Follows
  rw [hhandle, recording_emitAll hreg.recorded]
  refine ⟨f, _, (run_one f _).trans hread, hknown, fun b => ?_⟩
  rw [forwards_emitAll, part_toBooks, Bfa.Cfg.broadcast, part_toBooks, l3_readBack,
    hreg.books_perm.count_eq, hreg.count_allBooks]
  split
  · rcases hl3 with hchr | hgap
    · rw [hchr]
      exact .both .chr htime (fun _ => rfl) fun m hm => by cases hm
    · rw [hgap]
      exact .both .gap htime (fun _ => rfl) fun m hm => by cases hm
  · exact .neither fun orderID => .inl rfl

/-- A callback that reaches no book. -/
theorem follows_nothing {e : Callback} {f' : Bfa.State Px} (hknown : Known h f)
    (hmap : (handle cfg h e).1.orderidToSecurityid = h.orderidToSecurityid)
    (hforwards : forwards (handle cfg h e).2 = [])
    (hread : run (Bfa.process bfa) f (recording (handle cfg h e).2) = some (f', []))
    (hmap' : f'.mboUnorderedMap = f.mboUnorderedMap) : Follows cfg bfa h f e := by
  refine ⟨f', [], hread, ?_, fun b => ?_⟩
  · intro orderID sec hlookup
    rw [hmap] at hlookup
    unfold Bfa.State.Knows
    rw [hmap']
    exact hknown orderID sec hlookup
  · rw [hforwards]
    refine .neither fun orderID => .inl ?_
    rw [hmap]

/-- **What a callback does** by the two ways. -/
theorem follows (hreg : Registered cfg bfa) (hknown : Known h f) (e : Callback) :
    Follows cfg bfa h f e := by
  cases e with
  | mdIncrementalRefreshBook e =>
      rcases hon : cfg.disableMbo with _ | _
      · refine follows_mbo (r := h.mboRecord cfg e) hreg hknown rfl rfl rfl ?_ ?_
        · dsimp only [handle, State.mdIncrementalRefreshBook]
          rw [hon]
          rfl
        · exact book_lookup hon e
      · have hhandle : handle cfg h (.mdIncrementalRefreshBook e) = (h, []) := if_pos hon
        refine @follows_nothing Px cfg bfa h f _ f hknown ?_ ?_ ?_ rfl
        · rw [hhandle]
        · rw [hhandle]
          rfl
        · rw [hhandle]
          rfl
  | mdIncrementalRefreshTradeSummary t =>
      rcases hon : cfg.disableMbo with _ | _
      · exact follows_trade hreg hknown hon t
      · have hhandle : handle cfg h (.mdIncrementalRefreshTradeSummary t) = (h, []) := if_pos hon
        refine @follows_nothing Px cfg bfa h f _ f hknown ?_ ?_ ?_ rfl
        · rw [hhandle]
        · rw [hhandle]
          rfl
        · rw [hhandle]
          rfl
  | snapshotFullRefreshOrderBook e =>
      refine follows_mbo (r := cfg.snapshotRecord e) hreg hknown rfl rfl rfl rfl fun orderID => ?_
      refine (snapshot_lookup e orderID).trans ?_
      by_cases hid : e.orderID = orderID
      · have htells :
            tells (.mbo (cfg.snapshotRecord e).toMbo) orderID = some (some e.securityID) :=
          (if_neg (not_not_intro hid)).trans (if_pos rfl)
        rw [if_pos hid, htells]
        rfl
      · have htells : tells (.mbo (cfg.snapshotRecord e).toMbo) orderID = none := if_pos hid
        rw [if_neg hid, htells]
        rfl
  | channelReset =>
      refine follows_all hreg hknown (r := .chr cfg.xchg) rfl rfl ?_ (.inl rfl)
      exact if_neg hreg.venue
  | gap =>
      refine follows_all hreg hknown (r := .gap cfg.xchg) rfl rfl ?_ (.inr rfl)
      exact if_neg hreg.venue
  | setIngressQlen qlen => exact @follows_nothing Px cfg bfa h f _ f hknown rfl rfl rfl rfl
  | endOfPacket msgSeqNum sendingTime =>
      have hread : Bfa.process bfa f (Record.eop msgSeqNum sendingTime).readBack =
          some ({ f with eopDropped := f.eopDropped + 1 }, []) := rfl
      refine @follows_nothing Px cfg bfa h f _ { f with eopDropped := f.eopDropped + 1 } hknown rfl
        ?_ ?_ rfl
      · exact forwards_emit cfg (.eop msgSeqNum sendingTime) []
      · dsimp only [handle]
        rw [recording_emit hreg.recorded]
        exact (run_one f _).trans hread

end KasparHft.Replay
