import KasparHft.MatchingReports

/-!
# Runs of the matching engine

A run of the engine whose calls all have room (`Room`) never stops, answers what the calls mean
(`run_represents`) and ends with a book that passes the checks of the engine's own tests
(`assertBookOk`).  What the events of such a run tell is what the engine has (`Told`), and its
fills go in price-time order (`fills_in_turn`).
-/

namespace KasparHft.MatchingEngine

open AssocMap LinkedList Machine PriceTime

variable {H : Type}

/-! ### The check of the book -/

namespace OrderBook

/-- Walk the list of a level: the last slot, the quantity and the number of orders. -/
def walk (e : OrderBook H) (side : Side) (px : ℕ) :
    ℕ → ℕ → ℕ → ℕ → ℕ → Option (ℕ × ℕ × ℕ)
  | 0, _, _, _, _ => none
  | fuel + 1, cur, prev, sum, counted =>
      if cur = NIL then some (prev, sum, counted)
      else
        match e.nodes[cur]? with
        | none => none
        | some n =>
            if n.prev = prev ∧ n.price = px ∧ n.side = side ∧ 0 < n.qty ∧
                e.index.lookup n.orderId = some cur then
              walk e side px fuel n.next cur (sum + n.qty) (counted + 1)
            else none

/-- Check one level: the number of its orders. -/
def checkLevel (e : OrderBook H) (side : Side) (px : ℕ) (lvl : Level) : Option ℕ :=
  if lvl.head = NIL ∨ lvl.tail = NIL then none
  else
    match e.walk side px (e.nodes.length + 1) lvl.head NIL 0 0 with
    | none => none
    | some (last, sum, counted) => if last = lvl.tail ∧ sum = lvl.total then some counted else none

def checkLevels (e : OrderBook H) (side : Side) : List (Sigma fun _ : ℕ => Level) → Option ℕ
  | [] => some 0
  | lvl :: lvls => do
      let here ← e.checkLevel side lvl.1 lvl.2
      let there ← checkLevels e side lvls
      some (here + there)

/-- The book is not crossed, its lists are linked, and its totals and its index are right. -/
def assertBookOk (e : OrderBook H) : Bool :=
  ((e.topPx .buy).all fun bid => (e.topPx .sel).all fun ask => bid < ask) &&
  match e.checkLevels .buy e.bids.entries, e.checkLevels .sel e.asks.entries with
  | some bids, some asks => decide (bids + asks = e.index.entries.length)
  | _, _ => false

end OrderBook

section Check

variable {e : OrderBook H} {b : Book H} {side : Side}

/-- The walk along a segment of a level. -/
theorem Represents.walk (h : Represents e b) {px : ℕ} {ms : List (Order H)}
    (hms : ∀ m ∈ ms, m ∈ b.of side ∧ m.price = px) {cur prev : ℕ}
    (hcur : link cur = (e.slots ms).head?)
    (hseg : Segment (heap e.nodes) (link prev) (e.slots ms) none)
    {fuel : ℕ} (hfuel : ms.length < fuel) (sum counted : ℕ) :
    ∃ last, link last = (e.slots ms).getLast?.or (link prev) ∧
      e.walk side px fuel cur prev sum counted =
        some (last, sum + quantity ms, counted + ms.length) := by
  induction ms generalizing cur prev fuel sum counted with
  | nil =>
      obtain ⟨fuel, rfl⟩ := Nat.exists_eq_add_one.mpr hfuel
      refine ⟨prev, rfl, ?_⟩
      rw [OrderBook.walk, if_pos (link_eq_none.mp hcur)]
      rfl
  | cons m ms ih =>
      obtain ⟨fuel, rfl⟩ := Nat.exists_eq_add_one.mpr (Nat.zero_lt_of_lt hfuel)
      obtain ⟨⟨hm, hprice⟩, hrestMem⟩ := List.forall_mem_cons.mp hms
      obtain ⟨rfl, hne⟩ := link_eq_some.mp hcur
      obtain ⟨hlookup, hdata⟩ := h.held side m hm
      obtain ⟨n, hnode, hn⟩ := Option.map_eq_some_iff.mp hdata
      obtain ⟨hside, rfl⟩ := Prod.mk.inj hn
      rw [OrderBook.slots_cons] at hseg
      obtain ⟨hlinks, hrest⟩ := hseg
      rw [links_heap, hnode, Option.map_some, Option.or_none] at hlinks
      obtain ⟨hprev, hnext⟩ := Prod.mk.inj (Option.some.inj hlinks)
      rw [← link_of_ne hne] at hrest
      obtain ⟨last, hlast, hwalk⟩ := ih hrestMem hnext hrest (Nat.lt_of_succ_lt_succ hfuel)
        (sum + n.qty) (counted + 1)
      refine ⟨last, ?_, ?_⟩
      · rw [hlast, link_of_ne hne, OrderBook.slots_cons]
        rcases List.eq_nil_or_concat' (e.slots ms) with hnil | ⟨init, z, hz⟩
        · rw [hnil]
          rfl
        · rw [hz, List.getLast?_concat, ← List.cons_append, List.getLast?_concat]
          rfl
      · have hpos := h.sound.positive side _ hm
        rw [OrderBook.walk, if_neg hne, hnode]
        dsimp only
        rw [if_pos ⟨link_inj hprev, hprice, hside, hpos, hlookup⟩, hwalk, quantity_cons,
          List.length_cons, Nat.add_assoc, Nat.add_assoc, Nat.add_comm 1]

theorem Represents.checkLevel (h : Represents e b) {px : ℕ} {lvl : Level}
    (hlvl : (e.book side).lookup px = some lvl) :
    e.checkLevel side px lvl = some (level (b.of side) px).length := by
  have hlevel := h.levels side px
  rw [hlvl] at hlevel
  obtain ⟨hne, htotal, hlinked⟩ := hlevel
  have hmem : ∀ m ∈ level (b.of side) px, m ∈ b.of side ∧ m.price = px :=
    fun m hm => mem_level.mp hm
  have hshort : (level (b.of side) px).length < e.nodes.length + 1 := by
    have hlevelLen : (level (b.of side) px).length ≤ (b.of side).length := List.length_filter_le ..
    have hlen := h.length_eq
    have hsides := length_of_sides b side
    omega
  obtain ⟨last, hlast, hwalk⟩ := h.walk hmem hlinked.head_eq (by
    rw [link_NIL]
    exact hlinked.segment) hshort 0 0
  rw [link_NIL, Option.or_none, ← hlinked.tail_eq] at hlast
  have hhead : lvl.head ≠ NIL := fun hnil => by
    have hnone := hlinked.head_eq
    rw [hnil, link_NIL] at hnone
    exact hne (List.head?_eq_none_iff.mp hnone.symm)
  have htail : lvl.tail ≠ NIL := fun hnil => by
    have hnone := hlinked.tail_eq
    rw [hnil, link_NIL] at hnone
    exact hne (List.getLast?_eq_none_iff.mp hnone.symm)
  unfold OrderBook.checkLevel
  rw [if_neg (by simp [hhead, htail]), hwalk]
  dsimp only
  rw [if_pos ⟨link_inj hlast, by rw [htotal, Nat.zero_add]⟩, Nat.zero_add]

/-- The orders are those of the levels. -/
theorem length_eq_levels {prices : List ℕ} (hnodup : prices.Nodup) {ms : List (Order H)}
    (hms : ∀ m ∈ ms, m.price ∈ prices) :
    ms.length = (prices.map fun px => (level ms px).length).sum := by
  induction prices generalizing ms with
  | nil =>
      rw [List.eq_nil_iff_forall_not_mem.mpr fun m hm => List.not_mem_nil (hms m hm)]
      rfl
  | cons px prices ih =>
      obtain ⟨hnot, hnodup⟩ := List.nodup_cons.mp hnodup
      have hsame : ∀ q ∈ prices, level (ms.filter fun m => m.price ≠ px) q = level ms q := by
        intro q hq
        have hne : q ≠ px := fun heq => hnot (heq ▸ hq)
        unfold level
        rw [List.filter_filter]
        refine List.filter_congr fun m _ => ?_
        by_cases hm : m.price = q
        · simp [hm, hne]
        · simp [hm]
      have hmem : ∀ m ∈ ms.filter (fun m => m.price ≠ px), m.price ∈ prices := fun m hm => by
        obtain ⟨hm, hne⟩ := List.mem_filter.mp hm
        exact (List.mem_cons.mp (hms m hm)).resolve_left (by simpa using hne)
      have hrest := ih hnodup hmem
      rw [List.map_congr_left fun q hq => congrArg List.length (hsame q hq)] at hrest
      rw [List.map_cons, List.sum_cons, ← hrest]
      unfold level
      rw [← List.countP_eq_length_filter, ← List.countP_eq_length_filter,
        List.length_eq_countP_add_countP (fun m => decide (m.price = px))]
      congr 1
      exact List.countP_congr fun m _ => by simp

theorem Represents.checkLevels (h : Represents e b) (side : Side) :
    e.checkLevels side (e.book side).entries = some (b.of side).length := by
  have hall : ∀ lvls : List (Sigma fun _ : ℕ => Level),
      (∀ lvl ∈ lvls, lvl ∈ (e.book side).entries) →
      e.checkLevels side lvls =
        some ((lvls.map Sigma.fst).map fun px => (level (b.of side) px).length).sum := by
    intro lvls hlvls
    induction lvls with
    | nil => rfl
    | cons lvl lvls ih =>
        obtain ⟨hlvl, hlvls⟩ := List.forall_mem_cons.mp hlvls
        rw [OrderBook.checkLevels, h.checkLevel (AList.mem_lookup_iff.mpr hlvl), ih hlvls]
        rfl
  rw [hall _ fun _ hlvl => hlvl]
  refine congrArg some (length_eq_levels (e.book side).nodupKeys fun m hm => ?_).symm
  exact h.mem_keys.mpr ⟨m, hm, rfl⟩

/-- The index is as long as the book. -/
theorem Represents.index_length (h : Represents e b) :
    e.index.entries.length = b.bids.length + b.asks.length := by
  have hids : ((b.bids ++ b.asks).map Maker.id).Nodup := by
    rw [List.map_append, List.nodup_append]
    refine ⟨h.sound.nodup .buy, h.sound.nodup .sel, fun i hi j hj => ?_⟩
    obtain ⟨m, hm, rfl⟩ := List.mem_map.mp hi
    obtain ⟨n, hn, rfl⟩ := List.mem_map.mp hj
    exact h.sound.apart .buy m hm n hn
  have hperm : e.index.keys.Perm ((b.bids ++ b.asks).map Maker.id) := by
    refine (List.perm_ext_iff_of_nodup e.index.keys_nodup hids).mpr fun i => ?_
    rw [← AList.mem_keys, ← AList.lookup_isSome, h.lookup_eq]
    constructor
    · intro hsome
      obtain ⟨⟨side, m⟩, hfind⟩ := Option.isSome_iff_exists.mp hsome
      obtain ⟨hm, rfl⟩ := Book.mem_of_find hfind
      exact List.mem_map_of_mem ((perm_of_sides b side).mem_iff.mpr (List.mem_append_left _ hm))
    · intro hi
      obtain ⟨m, hm, rfl⟩ := List.mem_map.mp hi
      rcases List.mem_append.mp hm with hm | hm
      · rw [h.sound.find_of_mem (show m ∈ b.of .buy from hm)]
        rfl
      · rw [h.sound.find_of_mem (show m ∈ b.of .sel from hm)]
        rfl
  have hlen := hperm.length_eq
  rw [List.length_map, List.length_append] at hlen
  rw [← hlen]
  exact (List.length_map ..).symm

/-- **An engine that holds a book passes the check.** -/
theorem Represents.assertBookOk (h : Represents e b) : e.assertBookOk = true := by
  unfold OrderBook.assertBookOk
  have hbids : e.checkLevels .buy e.bids.entries = some b.bids.length := h.checkLevels .buy
  have hasks : e.checkLevels .sel e.asks.entries = some b.asks.length := h.checkLevels .sel
  rw [hbids, hasks, h.index_length, h.topPx, h.topPx, Bool.and_eq_true]
  refine ⟨?_, decide_eq_true rfl⟩
  rcases hx : (b.of .buy).head? with _ | x
  · rfl
  rcases hy : (b.of .sel).head? with _ | y
  · rfl
  exact decide_eq_true (h.sound.uncrossed x (List.mem_of_head? hx) y (List.mem_of_head? hy))

end Check

/-! ### Turns -/

/-- The id that a call is about. -/
def Call.orderId : Call H → ℕ
  | .place orderId _ _ _ _ => orderId
  | .cancel orderId _ => orderId
  | .replace orderId _ _ _ => orderId

section Turn

variable {b : Book H} {side : Side} {x y : Order H} {orderId price qty : ℕ} {who : H}

theorem fills_append (want t : ℕ) (hs ks : List (Hit ℕ ℕ H)) :
    fills orderId side who want t (hs ++ ks) =
      fills orderId side who want t hs ++
        fills orderId side who (want - taken hs) (t + hs.length) ks := by
  induction hs generalizing want t with
  | nil => rfl
  | cons h hs ih =>
      rw [List.cons_append, fills, ih, taken_cons, Nat.sub_sub, List.length_cons, fills,
        Nat.add_assoc, Nat.add_comm 1]
      rfl

/-- A fill that is not the taker's is a maker's hit. -/
theorem exists_hit {hits : List (Hit ℕ ℕ H)} {want t : ℕ} {ev : Event H}
    (hev : ev ∈ fills orderId side who want t hits) {w : H} {i p q l k t' : ℕ} {s : Side}
    (hfill : ev = .fill w i s p q l k t') (hi : i ≠ orderId) :
    s = side.other ∧ ∃ hs hit ks, hits = hs ++ hit :: ks ∧ hit.maker.id = i ∧
      ev ∈ fills orderId side who (want - taken hs) (t + hs.length) (hit :: ks) := by
  subst hfill
  induction hits generalizing want t with
  | nil => exact absurd hev List.not_mem_nil
  | cons hit hits ih =>
      have hall := hev
      rw [fills] at hev
      rcases List.mem_cons.mp hev with heq | hev
      · injection heq with hw hid hs
        exact ⟨hs, [], hit, hits, rfl, hid.symm, hall⟩
      rcases List.mem_cons.mp hev with heq | hev
      · injection heq with hw hid hs
        exact absurd hid hi
      · obtain ⟨hs, front, hit', back, rfl, hid, hmem⟩ := ih hev
        refine ⟨hs, hit :: front, hit', back, rfl, hid, ?_⟩
        rwa [taken_cons, ← Nat.sub_sub, List.length_cons, Nat.add_comm front.length,
          ← Nat.add_assoc]

/-- The fill of a maker that was hit in whole. -/
theorem mem_fills_whole (orderId : ℕ) (side : Side) (who : H) {hits : List (Hit ℕ ℕ H)}
    (hx : Hit.whole x ∈ hits) (want t : ℕ) :
    ∃ t', .fill x.owner x.id side.other x.price x.qty 0 orderId t' ∈
      fills orderId side who want t hits := by
  obtain ⟨hs, ks, rfl⟩ := List.append_of_mem hx
  refine ⟨t + hs.length, ?_⟩
  rw [fills_append, fills_whole]
  exact List.mem_append_right _ List.mem_cons_self

/-- **A queue is taken from the front**: what stands before an order that is hit is gone. -/
theorem Book.Sound.hit_in_turn (h : b.Sound) (hxy : [x, y].Sublist (b.of side.other))
    {ev : Event H} (hev : ev ∈ fills orderId side who qty b.nextTradeId
      (sweep (suits side price) (b.of side.other) qty).1)
    {w : H} {p q l k t : ℕ} {s : Side} (hfill : ev = .fill w y.id s p q l k t)
    (hy : y.id ≠ orderId) :
    ∃ t', [.fill x.owner x.id side.other x.price x.qty 0 orderId t', ev].Sublist
      (fills orderId side who qty b.nextTradeId
        (sweep (suits side price) (b.of side.other) qty).1) := by
  obtain ⟨-, hs, hit, ks, hhits, hid, hmem⟩ := exists_hit hev hfill hy
  have hx : Hit.whole x ∈ hs := by
    have hnodup : (b.of side.other).Nodup := (h.nodup side.other).of_map _
    -- what is hit is a prefix of the queue
    have hprefix : ∃ gone rest, b.of side.other = gone ++ hit.maker :: rest ∧
        hs = gone.map Hit.whole := by
      have hswept := swept (suits side price) (b.of side.other) qty
      generalize sweep (suits side price) (b.of side.other) qty = r at hswept hhits
      cases hswept with
      | stopped gone kept left hms hsuit hqty hstop =>
          obtain ⟨gone₁, gone₂, rfl, hgone₁, hgone₂⟩ := List.map_eq_append_iff.mp hhits
          obtain ⟨m, gone₃, rfl, hm, -⟩ := List.map_eq_cons_iff.mp hgone₂
          refine ⟨gone₁, gone₃ ++ kept, ?_, hgone₁.symm⟩
          rw [hms, ← hm]
          simp [Hit.whole]
      | within gone kept m z hms hsuit hqty hpos hlt =>
          rcases List.eq_nil_or_concat' ks with rfl | ⟨ks, last, rfl⟩
          · obtain ⟨hsame, hlast⟩ := List.append_inj' hhits rfl
            obtain rfl := List.singleton_inj.mp hlast
            exact ⟨gone, kept, hms, hsame.symm⟩
          · rw [← List.cons_append, ← List.append_assoc] at hhits
            obtain ⟨hsame, -⟩ := List.append_inj' hhits rfl
            obtain ⟨gone₁, gone₂, rfl, hgone₁, hgone₂⟩ := List.map_eq_append_iff.mp hsame
            obtain ⟨m', gone₃, rfl, hm, -⟩ := List.map_eq_cons_iff.mp hgone₂
            refine ⟨gone₁, gone₃ ++ m :: kept, ?_, hgone₁.symm⟩
            rw [hms, ← hm]
            simp [Hit.whole]
    obtain ⟨gone, rest, hqueue, rfl⟩ := hprefix
    have hmaker : hit.maker = y := by
      refine List.inj_on_of_nodup_map (h.nodup side.other) ?_ ?_ hid
      · rw [hqueue]
        exact List.mem_append_right _ List.mem_cons_self
      · exact hxy.subset (by simp)
    rw [hmaker] at hqueue
    refine List.mem_map_of_mem ?_
    rw [hqueue] at hxy hnodup
    -- the order that was hit is where it stands in the queue
    rcases List.sublist_append_iff.mp hxy with ⟨l₁, l₂, hsplit, hl₁, hl₂⟩
    rcases l₁ with _ | ⟨a, l₁⟩
    · exfalso
      rw [List.nil_append] at hsplit
      rw [← hsplit] at hl₂
      have hxrest := hl₂.subset (List.mem_cons_self (a := x) (l := [y]))
      have hyrest := (List.nodup_cons.mp (List.nodup_append.mp hnodup).2.1).1
      rcases List.mem_cons.mp hxrest with heq | -
      · have htwice := hl₂.nodup (List.nodup_append.mp hnodup).2.1
        simp [heq] at htwice
      · rw [List.cons_sublist_cons'] at hl₂
        rcases hl₂ with hl₂ | ⟨-, hl₂⟩
        · exact hyrest (hl₂.subset (by simp))
        · exact hyrest (hl₂.subset (by simp))
    · rw [List.cons_append] at hsplit
      obtain ⟨rfl, -⟩ := List.cons.inj hsplit
      exact hl₁.subset List.mem_cons_self
  obtain ⟨t', hxfill⟩ := mem_fills_whole orderId side who hx qty
    b.nextTradeId
  refine ⟨t', ?_⟩
  rw [hhits, fills_append]
  exact (List.singleton_sublist.mpr hxfill).append (List.singleton_sublist.mpr hmem)

theorem Book.Sound.enter_in_turn (h : b.Sound) {s : Side} (hxy : [x, y].Sublist (b.of side))
    {ev : Event H} (hev : ev ∈ (b.enter orderId s price qty who).2) {w : H} {p q l k t : ℕ}
    (hfill : ev = .fill w y.id side p q l k t) (hy : y.id ≠ orderId) :
    ∃ t', [.fill x.owner x.id side x.price x.qty 0 orderId t', ev].Sublist
      (b.enter orderId s price qty who).2 := by
  have hfills : ∀ ev' ∈ fills orderId s who qty b.nextTradeId
      (sweep (suits s price) (b.of s.other) qty).1, ev' = ev → ∃ t',
        [.fill x.owner x.id side x.price x.qty 0 orderId t', ev].Sublist (fills orderId s who qty
          b.nextTradeId (sweep (suits s price) (b.of s.other) qty).1) := by
    rintro _ hmem rfl
    obtain ⟨rfl, -⟩ := exists_hit hmem hfill hy
    exact h.hit_in_turn hxy hmem hfill hy
  by_cases hleft : (sweep (suits s price) (b.of s.other) qty).2.2 = 0
  · rw [Book.enter_filled hleft] at hev ⊢
    exact hfills ev hev rfl
  · rw [Book.enter_rests hleft] at hev ⊢
    rcases List.mem_append.mp hev with hev | hev
    · obtain ⟨t', hsub⟩ := hfills ev hev rfl
      exact ⟨t', hsub.trans (List.sublist_append_left _ _)⟩
    · rw [List.mem_singleton.mp hev] at hfill
      cases hfill

theorem not_fill_bboNote {z z' : Option (ℕ × ℕ) × Option (ℕ × ℕ)} {w : H} {s : Side}
    {i p q l k t : ℕ} : Event.fill w i s p q l k t ∉ (bboNote z z' : List (Event H)) := by
  unfold bboNote
  split
  next => exact List.not_mem_nil
  next => simp

theorem Book.Sound.call_in_turn (h : b.Sound) {c : Call H} (hxy : [x, y].Sublist (b.of side))
    {ev : Event H} (hev : ev ∈ (b.call c).2) {w : H} {p q l k t : ℕ}
    (hfill : ev = .fill w y.id side p q l k t) (hy : y.id ≠ c.orderId) :
    ∃ t', [.fill x.owner x.id side x.price x.qty 0 c.orderId t', ev].Sublist (b.call c).2 := by
  cases c with
  | place orderId s price qty who =>
      change ev ∈ (b.place orderId s price qty who).2 at hev
      change ∃ t', List.Sublist _ (b.place orderId s price qty who).2
      unfold Book.place at hev ⊢
      split at hev
      next => rw [List.mem_singleton.mp hev] at hfill; cases hfill
      next hgood =>
        rw [if_neg hgood]
        split at hev
        next => rw [List.mem_singleton.mp hev] at hfill; cases hfill
        next hnew =>
          rw [if_neg hnew]
          rcases List.mem_append.mp hev with hev | hev
          · obtain ⟨t', hsub⟩ := h.enter_in_turn hxy hev hfill hy
            exact ⟨t', hsub.trans (List.sublist_append_left _ _)⟩
          · exact absurd (hfill ▸ hev) not_fill_bboNote
  | cancel orderId who =>
      exfalso
      change ev ∈ (b.cancel orderId who).2 at hev
      unfold Book.cancel at hev
      split at hev
      next => rw [List.mem_singleton.mp hev] at hfill; cases hfill
      next =>
        rcases List.mem_cons.mp hev with rfl | hev
        · cases hfill
        · exact not_fill_bboNote (hfill ▸ hev)
  | replace orderId newPrice newQty who =>
      change ev ∈ (b.replace orderId newPrice newQty who).2 at hev
      change ∃ t', List.Sublist _ (b.replace orderId newPrice newQty who).2
      unfold Book.replace at hev ⊢
      split at hev
      next => rw [List.mem_singleton.mp hev] at hfill; cases hfill
      next s m hfind =>
        split at hev
        next => rw [List.mem_singleton.mp hev] at hfill; cases hfill
        next hgood =>
          dsimp only
          rw [if_neg hgood]
          rcases List.mem_cons.mp hev with rfl | hev
          · cases hfill
          rcases List.mem_append.mp hev with hev | hev
          · -- the order that is replaced stands on the other side
            have hside : side = s.other := by
              by_cases hleft : (sweep (suits s newPrice)
                  ((b.remove s orderId).of s.other) newQty).2.2 = 0
              · rw [Book.enter_filled hleft] at hev
                exact (exists_hit hev hfill hy).1
              · rw [Book.enter_rests hleft] at hev
                rcases List.mem_append.mp hev with hev | hev
                · exact (exists_hit hev hfill hy).1
                · rw [List.mem_singleton.mp hev] at hfill
                  cases hfill
            have hsame : (b.remove s orderId).of side = b.of side := by
              rw [hside]
              exact Book.of_set_other ..
            obtain ⟨t', hsub⟩ := (h.remove s orderId).enter_in_turn (hsame ▸ hxy) hev hfill hy
            exact ⟨t', (hsub.trans (List.sublist_append_left _ _)).trans
              (List.sublist_cons_self _ _)⟩
          · exact absurd (hfill ▸ hev) not_fill_bboNote

end Turn

/-! ### Runs -/

/-- What the events of a run tell of the book. -/
structure Told (events : List (Event H)) (b : Book H) : Prop where
  sound : b.Sound
  resting : reported 0 events = b.resting
  top : shown (none, none) events = b.bbo
  turns : InTurn (acked [] events) b
  once : (acked [] events).Nodup
  tape : Tape 1 b.nextTradeId events

theorem told_empty : Told [] ({} : Book H) where
  sound := sound_empty
  resting := rfl
  top := rfl
  turns side px := by cases side <;> exact List.Sublist.refl _
  once := List.nodup_nil
  tape := .of_none fun _ hev => absurd hev List.not_mem_nil

theorem acked_nodup {ids : List ℕ} (h : ids.Nodup) (evs : List (Event H)) :
    (acked ids evs).Nodup := by
  induction evs generalizing ids with
  | nil => exact h
  | cons ev evs ih =>
      refine ih ?_
      cases ev with
      | ack who orderId restingQty =>
          refine List.Nodup.append (h.filter _) (List.nodup_singleton _) ?_
          rw [List.disjoint_singleton]
          simp
      | _ => exact h

theorem Told.call {events : List (Event H)} {b : Book H} (h : Told events b) (c : Call H) :
    Told (events ++ (b.call c).2) (b.call c).1 where
  sound := h.sound.call c
  resting := by rw [reported_append, h.resting, h.sound.reported_call]
  top := by rw [shown_append, h.top, shown_call]
  turns := by
    rw [acked_append]
    exact h.turns.call h.sound c
  once := by
    rw [acked_append]
    exact acked_nodup h.once _
  tape := h.tape.append (h.sound.tape_call c)

theorem pair_total {α : Type*} {l : List α} {x y : α} (hx : x ∈ l) (hy : y ∈ l) (hne : x ≠ y) :
    [x, y].Sublist l ∨ [y, x].Sublist l := by
  obtain ⟨front, back, rfl⟩ := List.append_of_mem hx
  rcases List.mem_append.mp hy with hy | hy
  · exact .inr ((List.singleton_sublist.mpr hy).append
      (List.singleton_sublist.mpr List.mem_cons_self))
  · have hback := (List.mem_cons.mp hy).resolve_left (Ne.symm hne)
    exact .inl (((List.singleton_sublist.mpr hback).cons_cons x).trans
      (List.sublist_append_right _ _))

theorem pair_antisymm {α : Type*} {l : List α} {x y : α} (hl : l.Nodup) (hxy : [x, y].Sublist l)
    (hyx : [y, x].Sublist l) : False := by
  induction l with
  | nil => cases hxy
  | cons a l ih =>
      obtain ⟨hnot, hnodup⟩ := List.nodup_cons.mp hl
      rcases List.cons_sublist_cons'.mp hxy with hxy' | ⟨rfl, hy⟩
      · rcases List.cons_sublist_cons'.mp hyx with hyx | ⟨rfl, -⟩
        · exact ih hnodup hxy' hyx
        · exact hnot (hxy'.subset (List.mem_cons_of_mem x List.mem_cons_self))
      · rcases List.cons_sublist_cons'.mp hyx with hyx | ⟨rfl, -⟩
        · exact hnot (hyx.subset (by simp))
        · exact hnot (hy.subset (by simp))

/-- **Price, then time**: the order with the better price, or of two at one price the one that was
    acknowledged first, stands before the other. -/
theorem Told.stands_before {events : List (Event H)} {b : Book H} (h : Told events b) {side : Side}
    {x y : Order H} (hx : x ∈ b.of side) (hy : y ∈ b.of side)
    (hahead : better side x.price y.price ∨
      x.price = y.price ∧ [x.id, y.id].Sublist (acked [] events)) :
    [x, y].Sublist (b.of side) := by
  have hb := better_priority side
  have hne : x ≠ y := by
    rintro rfl
    rcases hahead with hbetter | ⟨-, hacked⟩
    · exact hb.irrefl _ hbetter
    · exact pair_antisymm h.once hacked hacked
  refine (pair_total hx hy hne).resolve_right fun hyx => ?_
  rcases hahead with hbetter | ⟨hprice, hacked⟩
  · exact List.pairwise_iff_forall_sublist.mp (h.sound.queued side) hyx hbetter
  · have hlevel : [y, x].Sublist (level (b.of side) y.price) := by
      have hfilter := hyx.filter fun m => m.price = y.price
      rwa [List.filter_eq_self.mpr (by simp [hprice])] at hfilter
    exact pair_antisymm h.once hacked ((hlevel.map Maker.id).trans (h.turns side y.price))

/-- The order in the slot that the index has for an id. -/
def OrderBook.find (e : OrderBook H) (orderId : ℕ) : Option (Side × Order H) :=
  (e.index.lookup orderId).bind (data e.nodes)

/-- The quantity that rests under an id. -/
def OrderBook.resting (e : OrderBook H) (orderId : ℕ) : ℕ :=
  (e.find orderId).elim 0 fun d => d.2.qty

theorem Represents.find {e : OrderBook H} {b : Book H} (h : Represents e b) (orderId : ℕ) :
    e.find orderId = b.find orderId := by
  unfold OrderBook.find
  rcases hfind : b.find orderId with _ | ⟨side, m⟩
  · rw [h.indexed orderId hfind]
    rfl
  · obtain ⟨hm, rfl⟩ := Book.mem_of_find hfind
    obtain ⟨hlookup, hdata⟩ := h.held side m hm
    rw [hlookup, Option.bind_some, hdata]

theorem Represents.resting {e : OrderBook H} {b : Book H} (h : Represents e b) :
    e.resting = b.resting := by
  funext orderId
  unfold OrderBook.resting
  rw [h.find]
  rcases hfind : b.find orderId with _ | ⟨side, m⟩
  · exact (resting_eq_zero (Book.find_eq_none.mp hfind)).symm
  · obtain ⟨hm, rfl⟩ := Book.mem_of_find hfind
    have hother : MatchingEngine.held (b.of side.other) m.id = 0 :=
      held_eq_zero fun n hn heq => h.sound.apart side m hm n hn heq.symm
    obtain ⟨l, r, hsplit⟩ := List.append_of_mem hm
    have hrest : MatchingEngine.held (l ++ r) m.id = 0 := by
      rw [← h.sound.filter_split hsplit]
      exact held_eq_zero fun n hn => by simpa using (List.mem_filter.mp hn).2
    rw [Book.resting_of_sides b side, hother, hsplit, held_perm List.perm_middle, held_cons_self,
      hrest]
    rfl

/-- **A run of the engine** does what its calls mean. -/
theorem run_represents {e : OrderBook H} {b : Book H} (h : Represents e b) {cs : List (Call H)}
    (hroom : AllSteps Book.step Room b cs) :
    ∃ e' b' out, run OrderBook.step e cs = some (e', out) ∧ run Book.step b cs = some (b', out) ∧
      Represents e' b' := by
  induction cs generalizing e b with
  | nil => exact ⟨e, b, [], rfl, rfl, h⟩
  | cons c cs ih =>
      obtain ⟨hc, hcs⟩ := allSteps_cons.mp hroom
      obtain ⟨e₁, hstep, hrep⟩ := h.step hc
      obtain ⟨e', b', out, hrun, hrun', hrep'⟩ := ih hrep (hcs _ _ rfl)
      exact ⟨e', b', (b.call c).2 ++ out, run_cons.mpr ⟨e₁, _, out, hstep, hrun, rfl⟩,
        run_cons.mpr ⟨_, _, out, rfl, hrun', rfl⟩, hrep'⟩

/-- The book that a run of the engine ends with, and what its events tell. -/
theorem exists_book {cs : List (Call H)} (hroom : AllSteps Book.step Room {} cs) {e : OrderBook H}
    {out : List (Event H)} (hrun : run OrderBook.step {} cs = some (e, out)) :
    ∃ b, run Book.step {} cs = some (b, out) ∧ Represents e b ∧ Told out b := by
  obtain ⟨e', b, out', hrun', hbook, hrep⟩ := run_represents represents_new hroom
  obtain ⟨rfl, rfl⟩ := Prod.mk.inj (Option.some.inj (hrun.symm.trans hrun'))
  refine ⟨b, hbook, hrep, ?_⟩
  refine run_invariant (I := fun _ events b => Told events b) told_empty ?_ hbook
  intro _ events b c b' o htold hstep
  obtain ⟨rfl, rfl⟩ := Prod.mk.inj (Option.some.inj hstep)
  exact htold.call c

/-- **The engine answers what the calls mean**, and never stops. -/
theorem engine_answers {cs : List (Call H)} (hroom : AllSteps Book.step Room {} cs) :
    ∃ e b out, run OrderBook.step ({} : OrderBook H) cs = some (e, out) ∧
      run Book.step {} cs = some (b, out) ∧ e.bbo = b.bbo ∧
        ∀ orderId, e.find orderId = b.find orderId := by
  obtain ⟨e, b, out, hrun, hbook, hrep⟩ := run_represents represents_new hroom
  exact ⟨e, b, out, hrun, hbook, hrep.bbo, hrep.find⟩

/-- Two offers, a taker of both, and a replace that crosses what is left. -/
def session : List (Call ℕ) :=
  [.place 1 .sel 5 50 7, .place 2 .sel 5 50 8, .place 3 .buy 6 60 9, .place 4 .buy 4 10 9,
    .replace 4 5 15 9]

theorem session_room : AllSteps Book.step Room {} session := by decide +kernel

theorem session_answers : ∃ e b out, run OrderBook.step ({} : OrderBook ℕ) session = some (e, out) ∧
    run Book.step {} session = some (b, out) ∧ e.bbo = b.bbo ∧
      ∀ orderId, e.find orderId = b.find orderId :=
  engine_answers session_room

/-- **The check of the tests** passes after every run. -/
theorem book_ok_of_run {cs : List (Call H)} (hroom : AllSteps Book.step Room {} cs)
    {e : OrderBook H} {out : List (Event H)}
    (hrun : run OrderBook.step {} cs = some (e, out)) : e.assertBookOk = true := by
  obtain ⟨b, -, hrep, -⟩ := exists_book hroom hrun
  exact hrep.assertBookOk

theorem session_book_ok : ∃ e out, run OrderBook.step {} session = some (e, out) ∧
    e.assertBookOk = true := by
  obtain ⟨e, b, out, hrun, -⟩ := run_represents represents_new session_room
  exact ⟨e, out, hrun, book_ok_of_run session_room hrun⟩

/-- **The reports are complete**: they tell what is left of each order and the top of the book. -/
theorem reports_complete {cs : List (Call H)} (hroom : AllSteps Book.step Room {} cs)
    {e : OrderBook H} {out : List (Event H)}
    (hrun : run OrderBook.step {} cs = some (e, out)) :
    reported 0 out = e.resting ∧ shown (none, none) out = e.bbo := by
  obtain ⟨b, -, hrep, htold⟩ := exists_book hroom hrun
  exact ⟨htold.resting.trans hrep.resting.symm, htold.top.trans hrep.bbo.symm⟩

theorem session_reported : ∃ e out, run OrderBook.step {} session = some (e, out) ∧
    reported 0 out = e.resting ∧ shown (none, none) out = e.bbo := by
  obtain ⟨e, b, out, hrun, -⟩ := run_represents represents_new session_room
  exact ⟨e, out, hrun, reports_complete session_room hrun⟩

/-- **Each trade is told to both sides once**, under a number of its own. -/
theorem trades_paired {cs : List (Call H)} (hroom : AllSteps Book.step Room {} cs)
    {e : OrderBook H} {out : List (Event H)}
    (hrun : run OrderBook.step {} cs = some (e, out)) : Tape 1 e.nextTradeId out := by
  obtain ⟨b, -, hrep, htold⟩ := exists_book hroom hrun
  exact hrep.tradeId ▸ htold.tape

theorem session_paired : ∃ e out, run OrderBook.step {} session = some (e, out) ∧
    Tape 1 e.nextTradeId out := by
  obtain ⟨e, b, out, hrun, -⟩ := run_represents represents_new session_room
  exact ⟨e, out, hrun, trades_paired session_room hrun⟩

/-- **Price-time priority.**  An order is filled as a maker only after every order that has a better
    price, or the same price and an earlier acknowledgement, has been filled in whole. -/
theorem fills_in_turn {cs : List (Call H)} {c : Call H}
    (hroom : AllSteps Book.step Room {} (cs ++ [c])) {e e' : OrderBook H}
    {out evs : List (Event H)} (hrun : run OrderBook.step {} cs = some (e, out))
    (hstep : e.step c = some (e', evs)) {side : Side} {x y : Order H}
    (hx : e.find x.id = some (side, x)) (hy : e.find y.id = some (side, y))
    (hahead : better side x.price y.price ∨
      x.price = y.price ∧ [x.id, y.id].Sublist (acked [] out))
    (hother : y.id ≠ c.orderId) {w : H} {p q l k t : ℕ}
    (hfill : Event.fill w y.id side p q l k t ∈ evs) :
    ∃ t', [Event.fill x.owner x.id side x.price x.qty 0 c.orderId t',
      .fill w y.id side p q l k t].Sublist evs := by
  obtain ⟨hcs, hc⟩ := allSteps_append.mp hroom
  obtain ⟨b, hbook, hrep, htold⟩ := exists_book hcs hrun
  obtain ⟨e₁, hstep₁, -⟩ := hrep.step (allSteps_cons.mp (hc _ _ hbook)).1
  obtain ⟨-, rfl⟩ := Prod.mk.inj (Option.some.inj (hstep.symm.trans hstep₁))
  rw [hrep.find] at hx hy
  have hxy := htold.stands_before (Book.mem_of_find hx).1 (Book.mem_of_find hy).1 hahead
  exact htold.sound.call_in_turn hxy hfill rfl hother

/-- The second offer at a price is filled behind the first. -/
theorem second_in_turn : ∃ e out e' evs t', run OrderBook.step {} (session.take 2) = some (e, out) ∧
    e.step (.place 3 .buy 6 60 9) = some (e', evs) ∧
    [Event.fill 7 1 .sel 5 50 0 3 t', .fill 8 2 .sel 5 10 40 3 2].Sublist evs := by
  have hroom : AllSteps Book.step Room {} (session.take 2 ++ [.place 3 .buy 6 60 9]) := by
    decide +kernel
  obtain ⟨hcs, hc⟩ := allSteps_append.mp hroom
  obtain ⟨e, b, out, hrun, hbook, hrep⟩ := run_represents represents_new hcs
  have hbook' : run Book.step {} (session.take 2) =
      some (⟨[], [⟨1, 5, 50, 7⟩, ⟨2, 5, 50, 8⟩], 1⟩,
        [.ack 7 1 50, .bbo none (some (5, 50)), .ack 8 2 50, .bbo none (some (5, 100))]) := rfl
  obtain ⟨e', hstep, -⟩ := hrep.step (allSteps_cons.mp (hc _ _ hbook)).1
  obtain ⟨rfl, rfl⟩ := Prod.mk.inj (Option.some.inj (hbook.symm.trans hbook'))
  obtain ⟨t', hsub⟩ := fills_in_turn hroom hrun hstep (x := ⟨1, 5, 50, 7⟩) (y := ⟨2, 5, 50, 8⟩)
    (hrep.find 1) (hrep.find 2) (.inr ⟨rfl, by decide⟩) (by decide)
    (show Event.fill 8 2 .sel 5 10 40 3 2 ∈ _ by decide +kernel)
  exact ⟨e, _, e', _, t', hrun, hstep, hsub⟩

end KasparHft.MatchingEngine
