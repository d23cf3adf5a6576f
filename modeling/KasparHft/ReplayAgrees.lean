import KasparHft.Replay

/-!
# Replay agrees with live

A replay leaves every book as the live callbacks do.  The books themselves get the same records;
the slate of a book gets, in a replay, the transactions of trades of other instruments too, and
so closes its own transaction earlier.  It is then ahead by the fills the live slate still holds,
until the live book has a record of another transaction; the transaction that was closed does not
come back, since the records of one transaction stand together.
-/

namespace KasparHft.Replay

open AssocMap Machine HandlerIf FillSlate

variable {Px : Type} {ops : PriceOps Px} {a : TachBook.Asset} {cfg : HandlerIf.Cfg Px} {b : ℕ}
  {past : List Callback} {e : Callback} {h h' : HandlerIf.State} {s s' t t' : TachBook.State Px}
  {fs ft : List (Released Px (Payload Px))} {l3 : L3 Px} {o o' : List (Act Px)}

/-! ### One record in one book -/

theorem book_eq_some : book ops a s l3 = some (s', o) ↔
    ∃ o', s.dataHandler ops a l3 = some (s', o') ∧
      o = (s.slateAfter ops a l3).2.map .released ++ o'.map .sent := by
  unfold book
  rw [Option.map_eq_some_iff]
  constructor
  · rintro ⟨⟨r, o'⟩, hstep, heq⟩
    cases heq
    exact ⟨o', hstep, rfl⟩
  · rintro ⟨o', hstep, rfl⟩
    exact ⟨(s', o'), hstep, rfl⟩

theorem fill_acts (fs : List (Released Px (Payload Px))) (os : List (TachBook.Out Px)) :
    (fs.map Act.released ++ os.map Act.sent).filterMap Act.fill = fs := by
  rw [List.filterMap_append, List.filterMap_map, List.filterMap_map]
  have hfills : Act.fill ∘ Act.released = (some : Released Px (Payload Px) → _) := rfl
  have hsent : os.filterMap (Act.fill ∘ Act.sent) = [] :=
    List.filterMap_eq_nil_iff.mpr fun _ _ => rfl
  rw [hfills, hsent, List.filterMap_some, List.append_nil]

theorem trade_acts (fs : List (Released Px (Payload Px))) (os : List (TachBook.Out Px)) :
    (fs.map Act.released ++ os.map Act.sent).filterMap Act.trade =
      os.filterMap TachBook.Out.trade := by
  rw [List.filterMap_append, List.filterMap_map, List.filterMap_map]
  have hfills : fs.filterMap (Act.trade ∘ Act.released) = [] :=
    List.filterMap_eq_nil_iff.mpr fun _ _ => rfl
  rw [hfills, List.nil_append]
  rfl

/-- A book publishes the trades of the fills that its slate releases. -/
theorem trades_of_run {l3s : List (L3 Px)} {os : List (Act Px)}
    (hrun : run (book ops a) s l3s = some (s', os)) :
    os.filterMap Act.trade = TachBook.published (os.filterMap Act.fill) := by
  refine run_invariant (I := fun _ os _ =>
    os.filterMap Act.trade = TachBook.published (os.filterMap Act.fill)) rfl ?_ hrun
  intro l3s os s l3 s' o hI hstep
  obtain ⟨o', hdata, rfl⟩ := book_eq_some.mp hstep
  rw [List.filterMap_append, trade_acts, hI, TachBook.dataHandler_trades hdata,
    ← TachBook.published_append, List.filterMap_append, fill_acts]

/-! ### The relation of the two books -/

/-- A book after the same callbacks live (`s`, which released `fs`) and in a replay (`t`, which
    released `ft`). -/
structure Link (a : TachBook.Asset) (cfg : HandlerIf.Cfg Px) (b : ℕ) (past : List Callback)
    (h : HandlerIf.State) (s t : TachBook.State Px) (fs ft : List (Released Px (Payload Px))) :
    Prop where
  rest : s.bare.latch a = t.bare.latch a
  ahead : Ahead s.fillSlate t.fillSlate fs ft
  held : ∀ oid ∈ s.orders, ∃ sec,
    h.orderidToSecurityid.lookup oid = some sec ∧ cfg.bookOf sec = some b
  reads : ∀ oid ∈ s.orders, ∀ m : Mbo Px, cfg.bookOf m.securityID = some b → s.Reads a m
  opened : s.fillSlate.txOpen = true → s.fillSlate.tx ∈ times past
  elapsed : t.fillSlate ≠ s.fillSlate → (times past).getLast? ≠ some s.fillSlate.tx

theorem Link.toBook (hl : Link a cfg b past h s t fs ft) : s.toBook = t.toBook := by
  have hrest : (s.bare.latch a).toBook = (t.bare.latch a).toBook := by rw [hl.rest]
  exact hrest

theorem times_concat (past : List Callback) (e : Callback) :
    times (past ++ [e]) = times past ++ e.transactTime.toList := by
  rw [times_append]
  congr 1

/-- A callback is not of a transaction that the replay alone has closed. -/
theorem Link.not_over (hl : Link a cfg b past h s t fs ft)
    (hcontig : Contiguous (times (past ++ [e]))) (hne : t.fillSlate ≠ s.fillSlate) :
    e.transactTime ≠ some s.fillSlate.tx := by
  intro htime
  rw [times_concat, htime, Option.toList_some] at hcontig
  have hopen : s.fillSlate.txOpen = true := by
    rcases hl.ahead with ⟨heq, -⟩ | ⟨hopen, -⟩
    · exact absurd heq hne
    · exact hopen
  exact hcontig.ne_of_concat (hl.opened hopen) (hl.elapsed hne) rfl

/-- A transaction that was over stays so, unless the callback is of it. -/
theorem last_times {tx : ℕ} (hlast : (times past).getLast? ≠ some tx)
    (htime : e.transactTime ≠ some tx) : (times (past ++ [e])).getLast? ≠ some tx := by
  rw [times_concat]
  cases hu : e.transactTime with
  | none =>
      rw [Option.toList_none, List.append_nil]
      exact hlast
  | some u =>
      rw [Option.toList_some, List.getLast?_concat]
      rw [hu] at htime
      exact htime

theorem mem_times {tx : ℕ} (hmem : tx ∈ times past) : tx ∈ times (past ++ [e]) := by
  rw [times_concat]
  exact List.mem_append_left _ hmem

/-! ### One callback -/

/-- Nothing reaches the book. -/
theorem Link.neither (hl : Link a cfg b past h s t fs ft) (hnamed : Named past h)
    (hids : UniqueOrderIds (past ++ [e])) (hcontig : Contiguous (times (past ++ [e])))
    (hmap : ∀ orderID, h'.orderidToSecurityid.lookup orderID =
      h.orderidToSecurityid.lookup orderID ∨
        ∃ sec, e.names = some (orderID, sec) ∧ cfg.bookOf sec ≠ some b) :
    Link a cfg b (past ++ [e]) h' s t fs ft where
  rest := hl.rest
  ahead := hl.ahead
  held := by
    intro oid hoid
    obtain ⟨sec, hsec, hbook⟩ := hl.held oid hoid
    rcases hmap oid with hsame | ⟨sec', hname, hother⟩
    · exact ⟨sec, hsame.trans hsec, hbook⟩
    · -- the order would have two instruments
      have hpast : (oid, sec) ∈ (past ++ [e]).filterMap Callback.names := by
        rw [List.filterMap_append]
        exact List.mem_append_left _ (hnamed oid sec hsec)
      have hnow : (oid, sec') ∈ (past ++ [e]).filterMap Callback.names :=
        List.mem_filterMap.mpr ⟨e, List.mem_append_right _ (List.mem_singleton_self e), hname⟩
      have heq : sec = sec' := hids _ hpast _ hnow rfl
      rw [heq] at hbook
      exact absurd hbook hother
  reads := hl.reads
  opened hopen := mem_times (hl.opened hopen)
  elapsed hne := last_times (hl.elapsed hne) (hl.not_over hcontig hne)

/-- The replay alone has a trade, of an order that is not in the book. -/
theorem Link.late (hl : Link a cfg b past h s t fs ft) (hcontig : Contiguous (times (past ++ [e])))
    {m : MboTrd} (htime : e.transactTime = some m.transactTime)
    (hmap : ∀ orderID, h'.orderidToSecurityid.lookup orderID =
      h.orderidToSecurityid.lookup orderID)
    (hother : ∀ sec, h.orderidToSecurityid.lookup m.orderID = some sec →
      cfg.bookOf sec ≠ some b) :
    ∃ t' o', book ops a t (.mboTrd m) = some (t', o') ∧
      Link a cfg b (past ++ [e]) h' s t' fs (ft ++ o'.filterMap Act.fill) := by
  have hunheld : m.orderID ∉ s.orders := by
    intro hmem
    obtain ⟨sec, hsec, hbook⟩ := hl.held _ hmem
    exact hother sec hsec hbook
  have hunheld' : m.orderID ∉ t.orders := by
    rw [← hl.toBook]
    exact hunheld
  have hdata := @TachBook.dataHandler_unheld Px ops t m hunheld' a
  refine ⟨_, _, book_eq_some.mpr ⟨_, hdata, rfl⟩, ?_⟩
  have hahead : Ahead s.fillSlate (t.slateAfter ops a (.mboTrd m)).1 fs
      (ft ++ (t.slateAfter ops a (.mboTrd m)).2) := by
    rw [TachBook.slateAfter_unheld hunheld' a]
    split
    · rw [List.append_nil]
      exact hl.ahead
    · exact hl.ahead.advance m.transactTime
  rw [fill_acts]
  constructor
  · exact hl.rest.trans (TachBook.latch_latch t.bare a).symm
  · exact hahead
  · intro oid hoid
    rw [hmap]
    exact hl.held oid hoid
  · exact hl.reads
  · exact fun hopen => mem_times (hl.opened hopen)
  · intro hne
    rw [times_concat, htime, Option.toList_some, List.getLast?_concat, ← htime]
    by_cases hbefore : t.fillSlate = s.fillSlate
    · -- the replay has closed it just now
      intro heq
      rw [htime, Option.some.injEq] at heq
      refine hne ?_
      change (t.slateAfter ops a (.mboTrd m)).1 = s.fillSlate
      rw [TachBook.slateAfter_unheld hunheld' a, hbefore, heq]
      split
      · rfl
      · exact congrArg Prod.fst (if_neg fun hnew => hnew.2 rfl)
    · exact hl.not_over hcontig hbefore

/-- What the rest of the two books does with a record is the same, and so are the calls. -/
theorem Link.bare_eq (hl : Link a cfg b past h s t fs ft) (l3 : L3 Px) :
    s.bare.dataHandler ops a l3 = t.bare.dataHandler ops a l3 := by
  rw [← TachBook.dataHandler_latch s.bare, ← TachBook.dataHandler_latch t.bare, hl.rest]

theorem Link.calls_eq (hl : Link a cfg b past h s t fs ft) (l3 : L3 Px) :
    (t.latch a).calls ops l3 = (s.latch a).calls ops l3 := by
  have hcalls : (s.bare.latch a).calls ops l3 = (t.bare.latch a).calls ops l3 := by rw [hl.rest]
  exact hcalls.symm

/-- An order in the book after a record is in an instrument of the book. -/
theorem Link.held_after (hl : Link a cfg b past h s t fs ft) {q : TachBook.State Px}
    {os : List (TachBook.Out Px)} (hdata : s.dataHandler ops a l3 = some (q, os))
    (hmap : ∀ orderID, h'.orderidToSecurityid.lookup orderID =
      (tells l3 orderID).getD (h.orderidToSecurityid.lookup orderID))
    (hmine : ∀ m, l3 = .mbo m → cfg.bookOf m.securityID = some b) :
    ∀ oid ∈ q.orders, ∃ sec, h'.orderidToSecurityid.lookup oid = some sec ∧
      cfg.bookOf sec = some b := by
  intro oid hoid
  rw [hmap]
  rcases TachBook.dataHandler_held hdata hoid with ⟨hmem, hkept⟩ | ⟨m, rfl, -, rfl, hnew⟩
  · obtain ⟨sec, hsec, hbook⟩ := hl.held oid hmem
    cases l3 with
    | mbo m =>
        dsimp only [tells]
        split
        next => exact ⟨sec, hsec, hbook⟩
        next hid =>
          have hread := hl.reads oid hmem m (hmine m rfl)
          have hnot := hkept m rfl hread (not_not.mp hid).symm
          rw [if_neg hnot]
          split
          · exact ⟨m.securityID, rfl, hmine m rfl⟩
          · exact ⟨sec, hsec, hbook⟩
    | mboTrd m => exact ⟨sec, hsec, hbook⟩
    | chr => exact ⟨sec, hsec, hbook⟩
    | gap => exact ⟨sec, hsec, hbook⟩
    | other => exact ⟨sec, hsec, hbook⟩
  · dsimp only [tells]
    rw [if_neg (not_not_intro rfl), if_pos hnew]
    exact ⟨m.securityID, rfl, hmine m rfl⟩

/-- The same record reaches both. -/
theorem Link.both (hl : Link a cfg b past h s t fs ft) (hcontig : Contiguous (times (past ++ [e])))
    (honce : ∀ sec sec', cfg.bookOf sec = some b → cfg.bookOf sec' = some b → sec = sec')
    (htime : e.transactTime = TachBook.timeOf l3)
    (hmap : ∀ orderID, h'.orderidToSecurityid.lookup orderID =
      (tells l3 orderID).getD (h.orderidToSecurityid.lookup orderID))
    (hmine : ∀ m, l3 = .mbo m → cfg.bookOf m.securityID = some b) :
    (book ops a s l3 = none ∧ book ops a t l3 = none) ∨
      ∃ s' o t' o', book ops a s l3 = some (s', o) ∧ book ops a t l3 = some (t', o') ∧
        Link a cfg b (past ++ [e]) h' s' t' (fs ++ o.filterMap Act.fill)
          (ft ++ o'.filterMap Act.fill) := by
  have hbare := @Link.bare_eq Px ops a cfg b past h s t fs ft hl l3
  have hs := @TachBook.dataHandler_beside Px ops s a l3
  have ht := @TachBook.dataHandler_beside Px ops t a l3
  rw [← hbare] at ht
  rcases hdata : s.bare.dataHandler ops a l3 with _ | ⟨q, os⟩
  · left
    rw [hdata, Option.map_none] at hs ht
    exact ⟨congrArg (Option.map _) hs, congrArg (Option.map _) ht⟩
  · right
    rw [hdata, Option.map_some] at hs ht
    refine ⟨_, _, _, _, book_eq_some.mpr ⟨_, hs, rfl⟩, book_eq_some.mpr ⟨_, ht, rfl⟩, ?_⟩
    rw [fill_acts, fill_acts]
    -- the calls on the two slates
    have hcs : t.fillSlate ≠ s.fillSlate → ∀ c ∈ (s.latch a).calls ops l3,
        c.tx ≠ some s.fillSlate.tx := by
      intro hne c hc
      rw [TachBook.calls_tx (s.latch a) l3 c hc, ← htime]
      exact hl.not_over hcontig hne
    obtain ⟨hahead, hsame⟩ := @Ahead.callAll Px _ _ _ ops.samePx _ _ hl.ahead _ hcs
    have hafter : t.slateAfter ops a l3 =
        t.fillSlate.callAll ops.samePx ((s.latch a).calls ops l3) := by
      unfold TachBook.State.slateAfter
      rw [hl.calls_eq]
    constructor
    · rfl
    · rw [hafter]
      exact hahead
    · exact hl.held_after hs hmap hmine
    · intro oid hoid m hm
      rw [TachBook.dataHandler_reads hs]
      rcases TachBook.dataHandler_held hs hoid with ⟨hmem, -⟩ | ⟨m', rfl, hread, -, -⟩
      · exact hl.reads oid hmem m hm
      · exact ⟨hread.1, (honce _ _ hm (hmine m' rfl)).trans hread.2⟩
    · intro hopen
      rcases callAll_tx (TachBook.calls_tx (s.latch a) l3) hopen with ⟨hbefore, htx⟩ | htx
      · have hmem := hl.opened hbefore
        rw [← htx] at hmem
        exact mem_times hmem
      · rw [times_concat, htime, htx]
        exact List.mem_append_right _ (List.mem_singleton_self _)
    · intro hne
      have hne' : (t.fillSlate.callAll ops.samePx ((s.latch a).calls ops l3)).1 ≠
          (s.fillSlate.callAll ops.samePx ((s.latch a).calls ops l3)).1 := by
        rw [← hafter]
        exact hne
      obtain ⟨hbefore, hnone⟩ := hsame hne'
      have hstay : (s.slateAfter ops a l3).1 = s.fillSlate := by
        unfold TachBook.State.slateAfter
        rw [hnone]
        rfl
      change (times (past ++ [e])).getLast? ≠ some (s.slateAfter ops a l3).1.tx
      rw [hstay]
      exact last_times (hl.elapsed hbefore) (hl.not_over hcontig hbefore)

/-! ### Runs -/

/-- The two books have both aborted, or are linked. -/
def Linked (a : TachBook.Asset) (cfg : HandlerIf.Cfg Px) (b : ℕ) (past : List Callback)
    (h : HandlerIf.State) :
    Option (TachBook.State Px × List (Act Px)) → Option (TachBook.State Px × List (Act Px)) → Prop
  | some (s, os), some (t, ot) =>
      Link a cfg b past h s t (os.filterMap Act.fill) (ot.filterMap Act.fill)
  | none, none => True
  | _, _ => False

theorem Linked.none_iff {x y : Option (TachBook.State Px × List (Act Px))}
    (hl : Linked a cfg b past h x y) : x = none ↔ y = none := by
  rcases x with _ | ⟨s, os⟩ <;> rcases y with _ | ⟨t, ot⟩
  · exact Iff.rfl
  · cases hl
  · cases hl
  · exact iff_of_false nofun nofun

/-- One more callback for a book. -/
theorem Linked.step {start : TachBook.State Px} {ls lt ms mt : List (L3 Px)}
    (hl : Linked a cfg b past h (run (book ops a) start ls) (run (book ops a) start lt))
    (hreach : Reaches cfg b h h' e ms mt) (hnamed : Named past h)
    (hids : UniqueOrderIds (past ++ [e])) (hcontig : Contiguous (times (past ++ [e])))
    (honce : ∀ sec sec', cfg.bookOf sec = some b → cfg.bookOf sec' = some b → sec = sec') :
    Linked a cfg b (past ++ [e]) h' (run (book ops a) start (ls ++ ms))
      (run (book ops a) start (lt ++ mt)) := by
  rw [run_append_eq, run_append_eq]
  generalize run (book ops a) start ls = x at hl ⊢
  generalize run (book ops a) start lt = y at hl ⊢
  rcases x with _ | ⟨s, os⟩ <;> rcases y with _ | ⟨t, ot⟩
  · trivial
  · cases hl
  · cases hl
  · dsimp only [Option.bind_some]
    cases hreach with
    | both l3 htime hmap hmine =>
        rw [run_one, run_one]
        rcases @Link.both _ ops _ _ _ _ _ _ _ _ _ _ _ _ hl hcontig honce htime hmap hmine with
          ⟨hs, ht⟩ | ⟨s', o, t', o', hs, ht, hnext⟩
        · rw [hs, ht]
          trivial
        · rw [hs, ht]
          change Link a cfg b _ _ _ _ ((os ++ o).filterMap Act.fill) ((ot ++ o').filterMap Act.fill)
          rw [List.filterMap_append, List.filterMap_append]
          exact hnext
    | neither hmap =>
        change Link a cfg b _ _ _ _ ((os ++ []).filterMap Act.fill) ((ot ++ []).filterMap Act.fill)
        rw [List.append_nil, List.append_nil]
        exact Link.neither hl hnamed hids hcontig hmap
    | late m htime hmap hother =>
        obtain ⟨t', o', ht, hnext⟩ :=
          @Link.late _ ops _ _ _ _ _ _ _ _ _ _ _ hl hcontig _ htime hmap hother
        rw [run_one, ht]
        change Link a cfg b _ _ _ _ ((os ++ []).filterMap Act.fill) ((ot ++ o').filterMap Act.fill)
        rw [List.append_nil, List.filterMap_append]
        exact hnext

/-- The handler has its orders in the instruments they are named with. -/
theorem Named.handle (hnamed : Named past h) (cfg : HandlerIf.Cfg Px) (e : Callback) :
    Named (past ++ [e]) (handle cfg h e).1 := by
  have hpast : ∀ {oid sec}, h.orderidToSecurityid.lookup oid = some sec →
      (oid, sec) ∈ (past ++ [e]).filterMap Callback.names := by
    intro oid sec hlookup
    rw [List.filterMap_append]
    exact List.mem_append_left _ (hnamed oid sec hlookup)
  have hnow : ∀ {x}, e.names = some x → x ∈ (past ++ [e]).filterMap Callback.names := fun hname =>
    List.mem_filterMap.mpr ⟨e, List.mem_append_right _ (List.mem_singleton_self e), hname⟩
  intro oid sec hlookup
  cases e with
  | mdIncrementalRefreshBook m =>
      rcases hon : cfg.disableMbo with _ | _
      · have htold := (book_lookup hon m oid).symm.trans hlookup
        unfold BookEntry.tells at htold
        split at htold
        next => exact hpast htold
        next hid =>
          split at htold
          · cases htold
            exact hnow (congrArg (fun id => some (id, m.securityID)) (not_not.mp hid))
          · split at htold
            · cases htold
            · exact hpast htold
      · have hhandle : HandlerIf.handle cfg h (.mdIncrementalRefreshBook m) = (h, []) := if_pos hon
        rw [hhandle] at hlookup
        exact hpast hlookup
  | mdIncrementalRefreshTradeSummary m =>
      have hsame := trade_map cfg h m
      exact hpast ((congrArg (AList.lookup oid) hsame).symm.trans hlookup)
  | snapshotFullRefreshOrderBook m =>
      have htold := (@snapshot_lookup Px cfg h m oid).symm.trans hlookup
      split at htold
      next hid =>
        cases htold
        exact hnow (congrArg (fun id => some (id, m.securityID)) hid)
      next => exact hpast htold
  | channelReset => exact hpast hlookup
  | gap => exact hpast hlookup
  | setIngressQlen qlen => exact hpast hlookup
  | endOfPacket msgSeqNum sendingTime => exact hpast hlookup

theorem link_start (a : TachBook.Asset) (cfg : HandlerIf.Cfg Px) (b : ℕ) (h : HandlerIf.State)
    (hfresh : Fresh s) : Link a cfg b [] h s s [] [] where
  rest := rfl
  ahead := Ahead.refl _ _
  held oid hoid := by
    rw [hfresh.orders] at hoid
    exact absurd hoid (AList.notMem_empty oid)
  reads oid hoid := by
    rw [hfresh.orders] at hoid
    exact absurd hoid (AList.notMem_empty oid)
  opened hopen := by
    rw [hfresh.fillSlate] at hopen
    cases hopen
  elapsed hne := absurd rfl hne

section Channel

variable {ref : ℕ → TachBook.Asset} {bfa : Bfa.Cfg} {start : ℕ → TachBook.State Px}

/-- **Every book stays linked** in a run of callbacks. -/
theorem linked_run (hreg : Registered cfg bfa) (hfresh : ∀ b, Fresh (start b)) (es : List Callback)
    (hids : UniqueOrderIds es) (hcontig : Contiguous (times es)) :
    ∃ h o f msgs, run (HandlerIf.step cfg) {} es = some (h, o) ∧
      run (Bfa.process bfa) {} (recording o) = some (f, msgs) ∧ Known h f ∧ Named es h ∧
      ∀ b, Linked (ref b) cfg b es h
        (run (book ops (ref b)) (start b) (part b (toBooks (forwards o))))
        (run (book ops (ref b)) (start b) (part b (toBooks msgs))) := by
  induction es using List.reverseRecOn with
  | nil =>
      refine ⟨{}, [], {}, [], rfl, rfl, ?_, ?_, fun b => link_start _ _ _ _ (hfresh b)⟩
      · rintro oid sec ⟨⟩
      · rintro oid sec ⟨⟩
  | append_singleton past e ih =>
      have hcontig' := hcontig
      rw [times_append] at hcontig'
      obtain ⟨h, o, f, msgs, hrun, hread, hknown, hnamed, hlinked⟩ :=
        ih hids.of_append hcontig'.of_append
      obtain ⟨f', msgs', hread', hknown', hreach⟩ := follows hreg hknown e
      refine ⟨(handle cfg h e).1, o ++ (handle cfg h e).2, f', msgs ++ msgs', ?_, ?_, hknown',
        hnamed.handle cfg e, fun b => ?_⟩
      · exact run_concat.mpr ⟨h, o, _, hrun, rfl, rfl⟩
      · unfold recording
        rw [List.filterMap_append]
        exact run_append.mpr ⟨f, msgs, msgs', hread, hread', rfl⟩
      · have hforwards : forwards (o ++ (handle cfg h e).2) =
            forwards o ++ forwards (handle cfg h e).2 := List.filterMap_append
        rw [hforwards, toBooks_append, toBooks_append, part_append, part_append]
        exact (hlinked b).step (hreach b) hnamed hids hcontig
          fun sec sec' hsec hsec' => hreg.once sec sec' b hsec hsec'

/-- **Replay agrees with live.**  After each callback the live books and the books of a replay of
    the recording have both aborted, or every book has the same orders and levels and has
    published the same trades, up to the fills that its slate still holds. -/
theorem replay_agrees_live (hreg : Registered cfg bfa) (hfresh : ∀ b, Fresh (start b))
    (es : List Callback) (hids : UniqueOrderIds es) (hcontig : Contiguous (times es)) :
    ∀ past rest, es = past ++ rest →
      Agree (live ops ref cfg start past) (replay ops ref cfg bfa start past) := by
  rintro past rest rfl
  rw [times_append] at hcontig
  obtain ⟨h, o, f, msgs, hrun, hread, -, -, hlinked⟩ :=
    @linked_run Px ops cfg ref bfa start hreg hfresh past hids.of_append hcontig.of_append
  unfold live replay
  rw [hrun, Option.bind_some, Option.bind_some, hread, Option.bind_some]
  rcases hlive : run (books ops ref) start (toBooks (forwards o)) with _ | ⟨s, os⟩ <;>
    rcases hreplay : run (books ops ref) start (toBooks msgs) with _ | ⟨t, ot⟩
  · trivial
  · -- the replay goes on in every book, so the live books do
    have hall : ∀ b, ∃ r, run (book ops (ref b)) (start b) (part b (toBooks (forwards o))) =
        some r := by
      intro b
      refine Option.ne_none_iff_exists'.mp fun hnone => ?_
      have habort := (hlinked b).none_iff.mp hnone
      rw [run_part hreplay b] at habort
      cases habort
    obtain ⟨s, os, hsome⟩ := exists_run_family hall
    cases hlive.symm.trans hsome
  · have hall : ∀ b, ∃ r, run (book ops (ref b)) (start b) (part b (toBooks msgs)) = some r := by
      intro b
      refine Option.ne_none_iff_exists'.mp fun hnone => ?_
      have habort := (hlinked b).none_iff.mpr hnone
      rw [run_part hlive b] at habort
      cases habort
    obtain ⟨t, ot, hsome⟩ := exists_run_family hall
    cases hreplay.symm.trans hsome
  · intro b
    have hb := hlinked b
    have hs := run_part hlive b
    have ht := run_part hreplay b
    rw [hs, ht] at hb
    have hfills : fills b os ++ (s b).fillSlate.holds = fills b ot ++ (t b).fillSlate.holds :=
      hb.ahead.holds
    constructor
    · exact congrArg TachBook.Book.orders hb.toBook
    · intro sd
      exact congrArg (fun book : TachBook.Book Px => (book.side sd).levels) hb.toBook
    · exact hfills
    · unfold trades
      rw [trades_of_run hs, trades_of_run ht, ← TachBook.published_append,
        ← TachBook.published_append]
      exact congrArg TachBook.published hfills

end Channel

/-! ### Two instruments -/

/-- The books of `HandlerIf.twoBooks` by the adapter of its venue. -/
def twoAdapter : Bfa.Cfg where
  dataAdapter _ := (AList.insert 500 (some 70) ∅ : Map ℤ (Option ℕ)).insert 600 (some 80)

def twoRef (b : ℕ) : TachBook.Asset := ⟨if b = 70 then 500 else 600, true⟩

/-- A book record of an order. -/
def bookAt (transactTime orderID action : ℕ) (securityID px : ℤ) (side : Char) : Callback :=
  .mdIncrementalRefreshBook
    { recvTime := transactTime, msgSeqNum := 1, transactTime := transactTime
      sendingTime := transactTime, securityID := securityID, pxMantissa := px, pxExponent := 0
      side := side, displayQty := 3, orderID := orderID, orderUpdateAction := action
      priority := 1, lastQuote := false, endOfEvent := true, recovery := false }

def tradeAt (transactTime orderID : ℕ) (lastQty : ℤ) : Callback :=
  .mdIncrementalRefreshTradeSummary
    { recvTime := transactTime, msgSeqNum := 1, transactTime := transactTime
      sendingTime := transactTime, lastQty := lastQty, orderID := orderID, lastTrade := true
      endOfEvent := false }

/-- A fill that is held when a trade of the other instrument comes, whose order came before the
    channel did; then a trade of an order of the other instrument, a gap and a reset. -/
def twoInstruments : List Callback :=
  [bookAt 5 1 0 500 10 '0', bookAt 5 2 0 500 12 '1', bookAt 6 3 0 600 30 '0',
    bookAt 7 9 1 600 31 '1', tradeAt 8 1 2, tradeAt 9 9 1, tradeAt 10 3 1,
    bookAt 10 3 2 600 30 '0', .gap, .channelReset]

theorem lookup_two {ν : Type} (x y : ν) (sec : ℤ) :
    ((AList.insert 500 x ∅ : Map ℤ ν).insert 600 y).lookup sec =
      if sec = 500 then some x else if sec = 600 then some y else none := by
  by_cases h500 : sec = 500
  · subst h500
    rfl
  · by_cases h600 : sec = 600
    · subst h600
      rfl
    · rw [if_neg h500, if_neg h600, AList.lookup_insert_ne h600, AList.lookup_insert_ne h500,
        AList.lookup_empty]

theorem twoBooks_bookOf (sec : ℤ) : twoBooks.bookOf sec =
    if sec = 500 then some 70 else if sec = 600 then some 80 else none := by
  refine (congrArg (Option.bind · _) (lookup_two 0 2 sec)).trans ?_
  split
  · rfl
  · split <;> rfl

theorem twoAdapter_bookOf (venue : ℕ) (sec : ℤ) : twoAdapter.bookOf venue sec =
    if sec = 500 then some 70 else if sec = 600 then some 80 else none := by
  refine (congrArg Option.join (lookup_two (some 70) (some 80) sec)).trans ?_
  split
  · rfl
  · split <;> rfl

theorem registered_twoBooks : Registered twoBooks twoAdapter where
  recorded := rfl
  venue := by decide
  adapter sec := by rw [twoAdapter_bookOf, twoBooks_bookOf]
  once sec sec' b hsec hsec' := by
    rw [twoBooks_bookOf] at hsec hsec'
    grind
  listed b := by
    have hall : twoBooks.allBooks = [70, 80] := rfl
    rw [hall]
    constructor
    · intro hb
      rcases List.mem_pair.mp hb with rfl | rfl
      · exact ⟨500, rfl⟩
      · exact ⟨600, rfl⟩
    · rintro ⟨sec, hsec⟩
      rw [twoBooks_bookOf] at hsec
      grind
  nodup := by decide

theorem replay_agrees_two_instruments :
    ((live tickOps twoRef twoBooks (fun _ => {}) (twoInstruments.take 6)).map
      fun r => (fills 70 r.2).length) = some 0 ∧
    ((replay tickOps twoRef twoBooks twoAdapter (fun _ => {}) (twoInstruments.take 6)).map
      fun r => (fills 70 r.2).length) = some 1 ∧
    ∀ past rest, twoInstruments = past ++ rest →
      Agree (live tickOps twoRef twoBooks (fun _ => {}) past)
        (replay tickOps twoRef twoBooks twoAdapter (fun _ => {}) past) :=
  ⟨by decide +kernel, by decide +kernel,
    replay_agrees_live registered_twoBooks (fun _ => ⟨rfl, rfl⟩) twoInstruments
      (by decide +kernel) (by decide +kernel)⟩

end KasparHft.Replay
