import KasparHft.MatchingEngineLinks

/-!
# The calls of the matching engine

Each call of the engine does to the book that the engine holds what the call means
(`Book.call`): the same events, and the book after it.  `Room` is what a call needs so that no sum
and no slot number overflows.
-/

namespace KasparHft.MatchingEngine

open AssocMap LinkedList PriceTime

variable {H : Type}

section Unlink

variable {e : OrderBook H} {b : Book H} {side : Side} {m : Order H} {l r : List (Order H)}

theorem head_without {as bs : List ℕ} {i head next : ℕ} (hhead : link head = (as ++ i :: bs).head?)
    (hnext : link next = bs.head?) (hi : i ∉ as) :
    link (if head = i then next else head) = (as ++ bs).head? := by
  cases as with
  | nil =>
      obtain ⟨rfl, -⟩ := link_eq_some.mp hhead
      rw [if_pos rfl]
      exact hnext
  | cons a as =>
      obtain ⟨rfl, -⟩ := link_eq_some.mp hhead
      rw [if_neg (fun h : head = i => hi (h ▸ List.mem_cons_self))]
      exact hhead

theorem tail_without {as bs : List ℕ} {i tail prev : ℕ}
    (htail : link tail = (as ++ i :: bs).getLast?) (hprev : link prev = as.getLast?)
    (hi : i ∉ bs) : link (if tail = i then prev else tail) = (as ++ bs).getLast? := by
  rcases List.eq_nil_or_concat' bs with rfl | ⟨bs, z, rfl⟩
  · rw [List.getLast?_concat] at htail
    obtain ⟨rfl, -⟩ := link_eq_some.mp htail
    rw [if_pos rfl, List.append_nil]
    exact hprev
  · rw [← List.cons_append, ← List.append_assoc, List.getLast?_concat] at htail
    rw [← List.append_assoc, List.getLast?_concat]
    obtain ⟨rfl, -⟩ := link_eq_some.mp htail
    rw [if_neg (fun h : tail = i => hi (h ▸ List.mem_append_right _ (List.mem_singleton_self _)))]
    exact htail

/-- The level of an order. -/
theorem Represents.exists_level (h : Represents e b) (hsplit : b.of side = l ++ m :: r) :
    ∃ lvl, (e.book side).lookup m.price = some lvl ∧
      lvl.total = m.qty + quantity (level l m.price ++ level r m.price) ∧
      Linked (heap e.nodes) (link lvl.head) (link lvl.tail)
        (e.slots (level l m.price) ++ e.slot m.id :: e.slots (level r m.price)) := by
  have hlevel := h.levels side m.price
  rw [level_split hsplit, OrderBook.slots_append, OrderBook.slots_cons, quantity_append,
    quantity_cons] at hlevel
  rcases hlookup : (e.book side).lookup m.price with _ | lvl
  · rw [hlookup] at hlevel
    exact absurd hlevel (by simp [HoldsLevel])
  · rw [hlookup] at hlevel
    obtain ⟨-, htotal, hlinked⟩ := hlevel
    refine ⟨lvl, rfl, ?_, hlinked⟩
    rw [htotal, quantity_append]
    omega

/-- The slots of a level are slots of the slab. -/
theorem Represents.slots_lt (h : Represents e b) (side : Side) {ms : List (Order H)}
    (hms : ∀ n ∈ ms, n ∈ b.of side) : ∀ t ∈ e.slots ms, t < e.nodes.length := by
  intro t ht
  obtain ⟨n, hn, rfl⟩ := List.mem_map.mp ht
  exact h.slot_lt (hms n hn)

/-- **Unlinking an order removes it.** -/
theorem Represents.unlink (h : Represents e b) (hm : m ∈ b.of side) :
    ∃ e', e.unlink (e.slot m.id) = some (e', m.qty, m.owner) ∧
      Represents e' (b.remove side m.id) := by
  obtain ⟨l, r, hsplit⟩ := List.append_of_mem hm
  obtain ⟨n, hnode, hid, hside, hprice, hqty, horig, hprev, hnext⟩ := h.exists_node hsplit
  obtain ⟨lvl, hlvl, htotal, hlinked⟩ := h.exists_level hsplit
  have hmid := List.nodup_middle.mp hlinked.nodup
  have hnot := (List.nodup_cons.mp hmid).1
  have hdisj := (List.nodup_append.mp (List.nodup_cons.mp hmid).2).2.2
  have hleft : ∀ t ∈ e.slots (level l m.price), t < e.nodes.length := h.slots_lt side
    fun n hn => hsplit ▸ List.mem_append_left _ (mem_level.mp hn).1
  have hright : ∀ t ∈ e.slots (level r m.price), t < e.nodes.length := h.slots_lt side
    fun n hn => hsplit ▸ List.mem_append_right _ (List.mem_cons_of_mem _ (mem_level.mp hn).1)
  obtain ⟨nodes₁, hset₁, hlen₁, hdata₁, hlinks₁⟩ := setNextOf_spec e.nodes (i := n.prev)
    (fun t ht => hleft t (List.mem_of_getLast? (hprev ▸ ht))) n.next
  obtain ⟨nodes₂, hset₂, hlen₂, hdata₂, hlinks₂⟩ := setPrevOf_spec nodes₁ (i := n.next)
    (fun t ht => hlen₁ ▸ hright t (List.mem_of_mem_head? (hnext ▸ ht))) n.prev
  rw [hprev, hnext] at hlinks₂
  rw [hprev, hnext] at hlinks₁
  have hapart : ∀ j, (e.slots (level l m.price)).getLast? = some j →
      (e.slots (level r m.price)).head? = some j → False := fun j hlast hhead =>
    hdisj j (List.mem_of_getLast? hlast) j (List.mem_of_head? hhead) rfl
  have hends := h.unlinked hsplit hlvl nodes₂
    (fun j hj => by
      have hlast := Option.mem_def.mp hj
      rw [hlinks₂, if_neg (fun hhead => hapart j hlast hhead), hlinks₁, if_pos hlast])
    (fun j hj => by
      have hhead := Option.mem_def.mp hj
      rw [hlinks₂, if_pos hhead, hlinks₁, if_neg (fun hlast => hapart j hlast hhead)])
    (fun j hj hj' => by rw [hlinks₂, if_neg (mt Option.mem_def.mpr hj'), hlinks₁,
      if_neg (mt Option.mem_def.mpr hj)])
  have hhead := head_without hlinked.head_eq hnext fun hi => hnot (List.mem_append_left _ hi)
  have htail := tail_without hlinked.tail_eq hprev fun hi => hnot (List.mem_append_right _ hi)
  rw [← OrderBook.slots_append] at hhead htail
  -- the level without the order
  obtain ⟨levels, hdrop, hlookup, hlookupNe⟩ : ∃ levels,
      OrderBook.dropFromLevel (e.book side) n (e.slot m.id) = some levels ∧
      HoldsLevel (heap nodes₂) (e.slots (level l m.price ++ level r m.price))
        (quantity (level l m.price ++ level r m.price)) (levels.lookup m.price) ∧
      ∀ px, px ≠ m.price → levels.lookup px = (e.book side).lookup px := by
    unfold OrderBook.dropFromLevel
    rw [hprice, hlvl]
    dsimp only
    rw [if_neg (by omega)]
    refine ⟨_, rfl, ?_, ?_⟩
    · by_cases hempty : (if lvl.head = e.slot m.id then n.next else lvl.head) = NIL
      · rw [if_pos hempty, AList.lookup_erase]
        rw [hempty, link_NIL] at hhead
        exact List.head?_eq_none_iff.mp hhead.symm
      · rw [if_neg hempty, AList.lookup_insert]
        refine ⟨fun hnil => ?_, by dsimp only; omega, ?_⟩
        · rw [hnil] at hhead
          exact hempty (link_eq_none.mp hhead)
        · dsimp only
          rw [hhead, htail]
          exact hends
    · intro px hpx
      by_cases hempty : (if lvl.head = e.slot m.id then n.next else lvl.head) = NIL
      · rw [if_pos hempty, AList.lookup_erase_ne hpx]
      · rw [if_neg hempty, AList.lookup_insert_ne hpx]
  have hunlink : e.unlink (e.slot m.id) = some ({ e.setBook side levels with
      nodes := nodes₂, index := e.index.erase m.id, free := e.slot m.id :: e.free },
      m.qty, m.owner) := by
    unfold OrderBook.unlink
    simp only [hnode, hset₁, hset₂, hside, hdrop, hid, hqty, horig, Option.bind_eq_bind,
      Option.bind_some]
  refine ⟨_, hunlink, ?_⟩
  have hdropped := h.dropped hsplit { e.setBook side levels with
      nodes := nodes₂, index := e.index.erase m.id, free := e.slot m.id :: e.free } rfl rfl
    (hlen₂.trans hlen₁) (book_setBook_other ..) (by
      rw [book_setBook]
      exact hlookupNe) (by
      rw [book_setBook]
      exact hlookup) (fun j _ => by rw [hdata₂, hdata₁]) (fun j hj => ?_)
  · have hsame : ({ b.remove side m.id with nextTradeId := (e.setBook side levels).nextTradeId } :
        Book H) = b.remove side m.id := by
      rw [nextTradeId_setBook, h.tradeId, ← Book.nextTradeId_set b side]
      rfl
    exact hsame ▸ hdropped
  · rw [level_split hsplit, OrderBook.slots_append, OrderBook.slots_cons] at hj
    dsimp only
    rw [hlinks₂, if_neg (fun hhead => hj (List.mem_append_right _
      (List.mem_cons_of_mem _ (List.mem_of_head? hhead)))), hlinks₁,
      if_neg (fun hlast => hj (List.mem_append_left _ (List.mem_of_getLast? hlast)))]

end Unlink

/-! ### A fill at the head of a level -/

section Head

variable {e : OrderBook H} {b : Book H} {side : Side} {m : Order H} {rest : List (Order H)}
  {orderId price want : ℕ} {who : H}

/-- The level and the node that a turn of the loop starts from. -/
theorem Represents.exists_head (h : Represents e b) (hqueue : b.of side = m :: rest) :
    ∃ lvl n, (e.book side).lookup m.price = some lvl ∧ lvl.head = e.slot m.id ∧
      lvl.total = m.qty + quantity (level rest m.price) ∧
      e.nodes[e.slot m.id]? = some n ∧ n.orderId = m.id ∧ n.side = side ∧
      n.price = m.price ∧ n.qty = m.qty ∧ n.originator = m.owner ∧
      link n.next = (e.slots (level rest m.price)).head? ∧
      Linked (heap e.nodes) (link lvl.head) (link lvl.tail)
        (e.slot m.id :: e.slots (level rest m.price)) := by
  have hsplit : b.of side = [] ++ m :: rest := hqueue
  obtain ⟨n, hnode, hid, hside, hprice, hqty, horig, -, hnext⟩ := h.exists_node hsplit
  obtain ⟨lvl, hlvl, htotal, hlinked⟩ := h.exists_level hsplit
  obtain ⟨hhead, -⟩ := link_eq_some.mp hlinked.head_eq
  exact ⟨lvl, n, hlvl, hhead, htotal, hnode, hid, hside, hprice, hqty, horig, hnext, hlinked⟩

/-- What has changed when the first order of a queue has got smaller. -/
theorem Represents.reduced (h : Represents e b) (hqueue : b.of side = m :: rest) {b' : Book H}
    (qty : ℕ) (hsound : b'.Sound) (hof : b'.of side = { m with qty := qty } :: rest)
    (hofOther : b'.of side.other = b.of side.other) {e' : OrderBook H}
    (hindex : e'.index = e.index) (hfree : e'.free = e.free)
    (hlen : e'.nodes.length = e.nodes.length) (hother : e'.book side.other = e.book side.other)
    (hbook : ∀ px, px ≠ m.price → (e'.book side).lookup px = (e.book side).lookup px)
    (hlvl : HoldsLevel (heap e.nodes) (e.slots (level (m :: rest) m.price))
      (qty + quantity (level rest m.price)) ((e'.book side).lookup m.price))
    (hdata : ∀ j, data e'.nodes j = if j = e.slot m.id then
      (data e.nodes j).map fun d => (d.1, { d.2 with qty := qty }) else data e.nodes j)
    (hlinks : ∀ j, links (heap e'.nodes) j = links (heap e.nodes) j)
    (htrade : e'.nextTradeId = b'.nextTradeId) : Represents e' b' := by
  have hm : m ∈ b.of side := hqueue ▸ List.mem_cons_self
  have hslot : e'.slot = e.slot := by
    funext i
    unfold OrderBook.slot
    rw [hindex]
  have hslots : e'.slots = e.slots := by
    funext ms
    unfold OrderBook.slots
    rw [hslot]
  have hrest : ∀ n ∈ rest, n ∈ b.of side ∧ n.id ≠ m.id := by
    intro n hn
    have hnodup := h.sound.nodup side
    rw [hqueue, List.map_cons, List.nodup_cons] at hnodup
    exact ⟨hqueue ▸ List.mem_cons_of_mem _ hn,
      fun heq => hnodup.1 (heq ▸ List.mem_map_of_mem hn)⟩
  have hheld : ∀ s, ∀ n ∈ b.of s, n.id ≠ m.id → e'.index.lookup n.id = some (e'.slot n.id) ∧
      data e'.nodes (e'.slot n.id) = some (s, n) := by
    intro s n hn hid
    have hne : e.slot n.id ≠ e.slot m.id := fun heq =>
      hid (congrArg Maker.id (h.slot_inj hn hm heq))
    rw [hindex, hslot, hdata, if_neg hne]
    exact h.held s n hn
  refine ⟨hsound, forall_side side ?_ ?_, ?_, ?_, hlen ▸ h.short,
    forall_side side ?_ ?_, htrade⟩
  · rw [hof]
    intro n hn
    rcases List.mem_cons.mp hn with rfl | hn
    · rw [hindex, hslot, hdata, if_pos rfl, (h.held side m hm).2]
      exact ⟨(h.held side m hm).1, rfl⟩
    · exact hheld side n (hrest n hn).1 (hrest n hn).2
  · rw [hofOther]
    exact fun n hn => hheld side.other n hn (h.sound.apart side m hm n hn).symm
  · intro orderId hmissing
    have hall := Book.find_eq_none.mp hmissing
    rw [hindex]
    refine h.indexed orderId (Book.find_eq_none.mpr (forall_side side ?_ ?_))
    · rw [hqueue]
      intro n hn
      rcases List.mem_cons.mp hn with rfl | hn
      · exact hall side { n with qty := qty } (hof ▸ List.mem_cons_self)
      · exact hall side n (hof ▸ List.mem_cons_of_mem _ hn)
    · rw [← hofOther]
      exact hall side.other
  · rw [hlen, hslots, hfree]
    have hsame : e.slots (b'.of side ++ b'.of side.other) =
        e.slots (b.of side ++ b.of side.other) := by
      rw [hof, hofOther, hqueue]
      rfl
    refine (h.slab_of side).trans (List.Perm.append_right _ ?_)
    rw [← hsame]
    exact ((perm_of_sides b' side).map _).symm
  · intro px
    rw [hof, hslots]
    by_cases hpx : m.price = px
    · subst hpx
      have hlevel : level ({ m with qty := qty } :: rest) m.price =
          { m with qty := qty } :: level rest m.price := List.filter_cons_of_pos (by simp)
      have hlevelOld : level (m :: rest) m.price = m :: level rest m.price :=
        List.filter_cons_of_pos (by simp)
      rw [hlevel, quantity_cons]
      rw [hlevelOld] at hlvl
      exact hlvl.congr fun i _ => hlinks i
    · have hlevel : ∀ q, level ({ m with qty := q } :: rest) px = level rest px := fun q =>
        List.filter_cons_of_neg (by simpa using hpx)
      have hold := h.levels side px
      rw [hqueue, hlevel m.qty] at hold
      rw [hlevel, hbook px (Ne.symm hpx)]
      exact hold.congr fun i _ => hlinks i
  · intro px
    rw [hofOther, hslots, hother]
    exact (h.levels side.other px).congr fun i _ => hlinks i

/-- **A fill of a part** leaves the rest at the head. -/
theorem Represents.matchHead_part (h : Represents e b) (orderId : ℕ) (who : H)
    (hqueue : b.of side.other = m :: rest)
    (hwant : 0 < want) (hlt : want < m.qty) (hsuits : suits side price m.price = true)
    (htrade : b.nextTradeId + 1 < 2 ^ 64) :
    ∃ e', e.matchHead orderId side who want m.price = some (e', 0,
        fills orderId side who want b.nextTradeId [⟨m, want⟩]) ∧
      Represents e' (b.matched side price want) := by
  obtain ⟨lvl, n, hlvl, hhead, htotal, hnode, hid, hside, hprice, hqty, horig, -, hlinked⟩ :=
    h.exists_head hqueue
  have hm : m ∈ b.of side.other := hqueue ▸ List.mem_cons_self
  have hmin : min want m.qty = want := by omega
  have hleaves : m.qty - want ≠ 0 := by omega
  have hsweep : sweep (suits side price) (b.of side.other) want =
      ([⟨m, want⟩], { m with qty := m.qty - want } :: rest, 0) := by
    rw [hqueue, sweep_part hsuits hwant hlt]
  have hmodify := modifyNode_of_lt (hhead ▸ h.slot_lt hm : lvl.head < e.nodes.length)
    fun n' => { n' with qty := m.qty - want }
  have hfill : OrderBook.fillLevel (e.book side.other) m.price want (m.qty - want) n.next =
      some ((e.book side.other).insert m.price ⟨lvl.head, lvl.tail, lvl.total - want⟩) := by
    unfold OrderBook.fillLevel
    rw [hlvl]
    dsimp only
    rw [if_neg (by omega), if_pos hleaves]
  have hnode' : e.nodes[lvl.head]? = some n := hhead ▸ hnode
  have hadd : add64 b.nextTradeId 1 = some (b.nextTradeId + 1) := by
    rw [add64, if_pos htrade]
  refine ⟨{ e.setBook side.other
      ((e.book side.other).insert m.price ⟨lvl.head, lvl.tail, lvl.total - want⟩) with
      nodes := e.nodes.modify lvl.head fun n' => { n' with qty := m.qty - want }
      index := e.index, free := e.free, nextTradeId := b.nextTradeId + 1 }, ?_, ?_⟩
  · unfold OrderBook.matchHead
    simp only [hlvl, hnode', hqty, hmin, hmodify, hfill, if_neg hleaves, h.tradeId, hadd,
      Option.bind_eq_bind, Option.bind_some, hid, hside, hprice, horig]
    simp only [fills, Hit.leaves, Nat.sub_self]
  · refine h.reduced hqueue (m.qty - want) h.sound.matched ?_ ?_ rfl rfl
      (List.length_modify ..) (book_setBook_other ..) ?_ ?_ ?_ ?_ ?_
    · rw [Book.of_matched_other, hsweep]
    · rw [other_other, Book.of_matched]
    · intro px hpx
      rw [book_setBook, AList.lookup_insert_ne hpx]
    · rw [book_setBook, AList.lookup_insert]
      have hlevel : level (m :: rest) m.price = m :: level rest m.price :=
        List.filter_cons_of_pos (by simp)
      rw [hlevel]
      exact ⟨by simp, by dsimp only; omega, hlinked⟩
    · intro j
      rw [data_setQty, hhead]
      by_cases hj : j = e.slot m.id
      · rw [if_pos hj, if_pos hj, hj]
      · rw [if_neg hj, if_neg hj]
    · exact fun j => links_setQty ..
    · unfold Book.matched
      rw [hsweep]
      rfl

/-- **A fill of the whole** takes the head out of its level. -/
theorem Represents.matchHead_whole (h : Represents e b) (orderId : ℕ) (who : H)
    (hqueue : b.of side.other = m :: rest)
    (hle : m.qty ≤ want) (htrade : b.nextTradeId + 1 < 2 ^ 64) :
    ∃ e', e.matchHead orderId side who want m.price = some (e', want - m.qty,
        fills orderId side who want b.nextTradeId [Hit.whole m]) ∧
      Represents e' { b.set side.other rest with nextTradeId := b.nextTradeId + 1 } := by
  obtain ⟨lvl, n, hlvl, hhead, htotal, hnode, hid, hside, hprice, hqty, horig, hnext, hlinked⟩ :=
    h.exists_head hqueue
  have hsplit : b.of side.other = [] ++ m :: rest := hqueue
  have hm : m ∈ b.of side.other := hqueue ▸ List.mem_cons_self
  have hlevelNil : level ([] : List (Order H)) m.price = [] := rfl
  have hmin : min want m.qty = m.qty := by omega
  have hmodify := modifyNode_of_lt (h.slot_lt hm) fun n' => { n' with qty := 0 }
  have hright : ∀ t ∈ e.slots (level rest m.price), t < e.nodes.length :=
    h.slots_lt side.other fun n hn =>
      hqueue ▸ List.mem_cons_of_mem _ (mem_level.mp hn).1
  obtain ⟨nodes, hset, hlen, hdata, hlinks⟩ := setPrevOf_spec
    (e.nodes.modify (e.slot m.id) fun n' => { n' with qty := 0 }) (i := n.next)
    (fun t ht => (List.length_modify ..).symm ▸ hright t (List.mem_of_mem_head? (hnext ▸ ht))) NIL
  rw [hnext] at hlinks
  have hadd : add64 b.nextTradeId 1 = some (b.nextTradeId + 1) := by
    rw [add64, if_pos htrade]
  have hends := h.unlinked hsplit hlvl nodes (fun j hj => by cases hj)
    (fun j hj => by
      rw [hlinks, if_pos (Option.mem_def.mp hj), links_setQty, link_NIL]
      rfl)
    (fun j _ hj' => by rw [hlinks, if_neg (mt Option.mem_def.mpr hj'), links_setQty])
  rw [hlevelNil, List.nil_append] at hends
  -- the level without its head
  obtain ⟨levels, hfill, hlookup, hlookupNe⟩ : ∃ levels,
      OrderBook.fillLevel (e.book side.other) m.price m.qty 0 n.next = some levels ∧
      HoldsLevel (heap nodes) (e.slots (level rest m.price)) (quantity (level rest m.price))
        (levels.lookup m.price) ∧
      ∀ px, px ≠ m.price → levels.lookup px = (e.book side.other).lookup px := by
    unfold OrderBook.fillLevel
    rw [hlvl]
    dsimp only
    rw [if_neg (by omega), if_neg (by simp)]
    by_cases hempty : n.next = NIL
    · rw [if_pos hempty]
      rw [hempty, link_NIL] at hnext
      refine ⟨_, rfl, ?_, fun px hpx => AList.lookup_erase_ne hpx⟩
      rw [AList.lookup_erase]
      exact List.head?_eq_none_iff.mp hnext.symm
    · rw [if_neg hempty]
      refine ⟨_, rfl, ?_, fun px hpx => AList.lookup_insert_ne hpx⟩
      rw [AList.lookup_insert]
      have hne : e.slots (level rest m.price) ≠ [] := fun hnil => by
        rw [hnil] at hnext
        exact hempty (link_eq_none.mp hnext)
      refine ⟨hne, by dsimp only; omega, ?_⟩
      dsimp only
      rw [hnext, hlinked.tail_eq, List.getLast?_cons_of_ne_nil hne]
      exact hends
  refine ⟨{ e.setBook side.other levels with
      nodes := nodes, index := e.index.erase m.id, free := e.slot m.id :: e.free
      nextTradeId := b.nextTradeId + 1 }, ?_, ?_⟩
  · unfold OrderBook.matchHead
    simp only [hlvl, hhead, hnode, hqty, hmin, Nat.sub_self, hmodify, hfill, hset, if_true,
      h.tradeId, hadd, Option.bind_eq_bind, Option.bind_some, hid, hside, hprice, horig]
    simp [fills, Hit.whole, Hit.leaves]
  · have hset : b.remove side.other m.id = b.set side.other rest := by
      unfold Book.remove
      rw [h.sound.filter_split hsplit, List.nil_append]
    rw [← hset]
    refine h.dropped hsplit _ rfl rfl (hlen.trans (List.length_modify ..)) (book_setBook_other ..)
      ?_ ?_ (fun j hj => ?_) fun j hj => ?_
    · rw [book_setBook]
      exact hlookupNe
    · rw [book_setBook]
      exact hlookup
    · dsimp only
      rw [hdata, data_setQty, if_neg hj]
    · rw [hqueue] at hj
      have hlevel : level (m :: rest) m.price = m :: level rest m.price :=
        List.filter_cons_of_pos (by simp)
      rw [hlevel, OrderBook.slots_cons] at hj
      dsimp only
      rw [hlinks, if_neg (fun hfirst => hj (List.mem_cons_of_mem _ (List.mem_of_head? hfirst))),
        links_setQty]

end Head

/-! ### The matching loop -/

section Loop

variable {e : OrderBook H} {b : Book H} {side : Side} {m : Order H} {orderId price want : ℕ}
  {who : H}

theorem Represents.crossPx (h : Represents e b) : e.crossPx side price =
    ((b.of side.other).head?.map Maker.price).filter (suits side price) := by
  unfold OrderBook.crossPx
  rw [h.topPx]

theorem Book.set_self (b : Book H) (side : Side) : b.set side (b.of side) = b := by
  cases side <;> rfl

theorem Book.set_set (b : Book H) (side : Side) (ms ns : List (Order H)) (t : ℕ) :
    Book.set { b.set side ms with nextTradeId := t } side ns =
      { b.set side ns with nextTradeId := t } := by
  cases side <;> rfl

/-- A taker that takes nothing. -/
theorem Book.matched_stop
    (hsweep : sweep (suits side price) (b.of side.other) want = ([], b.of side.other, want)) :
    b.matched side price want = b := by
  unfold Book.matched
  rw [hsweep]
  dsimp only
  rw [Book.set_self]
  rfl

/-- **The matching loop is a sweep.**  By induction on the queue that it takes from. -/
theorem Represents.matchLoop (h : Represents e b) (orderId price : ℕ) (who : H) (want fuel : ℕ)
    (hfuel : (b.of side.other).length < fuel)
    (htrade : b.nextTradeId + (b.of side.other).length < 2 ^ 64) :
    ∃ e', OrderBook.matchLoop orderId side price who fuel e want =
        some (e', (sweep (suits side price) (b.of side.other) want).2.2,
          fills orderId side who want b.nextTradeId
            (sweep (suits side price) (b.of side.other) want).1) ∧
      Represents e' (b.matched side price want) := by
  induction hqueue : b.of side.other generalizing e b want fuel with
  | nil =>
      rw [hqueue] at hfuel
      obtain ⟨fuel, rfl⟩ := Nat.exists_eq_add_one.mpr hfuel
      refine ⟨e, ?_, ?_⟩
      · rw [OrderBook.matchLoop, h.crossPx, hqueue]
        split
        next hzero => rw [hzero]; rfl
        next => rfl
      · rwa [Book.matched_stop (by rw [hqueue]; rfl)]
  | cons m rest ih =>
      rw [hqueue, List.length_cons] at hfuel htrade
      obtain ⟨fuel, rfl⟩ := Nat.exists_eq_add_one.mpr (Nat.zero_lt_of_lt hfuel)
      have hcross : e.crossPx side price =
          if suits side price m.price then some m.price else none := by
        rw [h.crossPx, hqueue, List.head?_cons, Option.map_some, Option.filter_some]
      rcases Nat.eq_zero_or_pos want with rfl | hwant
      · rw [sweep_none]
        refine ⟨e, by rw [OrderBook.matchLoop, if_pos rfl]; rfl, ?_⟩
        rwa [Book.matched_stop (by rw [hqueue, sweep_none])]
      cases hsuits : suits side price m.price with
      | false =>
          rw [sweep_stop hsuits]
          refine ⟨e, ?_, ?_⟩
          · rw [OrderBook.matchLoop, if_neg (Nat.ne_of_gt hwant), hcross, hsuits]
            rfl
          · rwa [Book.matched_stop (by rw [hqueue, sweep_stop hsuits])]
      | true =>
          rw [hsuits, if_pos rfl] at hcross
          rcases Nat.lt_or_ge want m.qty with hlt | hle
          · obtain ⟨e₁, hhead, hrep⟩ := h.matchHead_part orderId who hqueue
              hwant hlt hsuits (by omega)
            obtain ⟨fuel, rfl⟩ := Nat.exists_eq_add_one.mpr (show 0 < fuel by omega)
            refine ⟨e₁, ?_, hrep⟩
            rw [OrderBook.matchLoop, if_neg (Nat.ne_of_gt hwant), hcross]
            dsimp only
            rw [hhead, sweep_part hsuits hwant hlt]
            simp only [Option.bind_eq_bind, Option.bind_some]
            rw [OrderBook.matchLoop, if_pos rfl]
            simp
          · obtain ⟨e₁, hhead, hrep⟩ := h.matchHead_whole orderId who
              hqueue hle (by omega)
            have hrest : Book.of { b.set side.other rest with nextTradeId := b.nextTradeId + 1 }
                side.other = rest := by
              rw [Book.of_nextTradeId, Book.of_set]
            obtain ⟨e', hloop, hrep'⟩ := ih hrep (want - m.qty) fuel (by rw [hrest]; omega)
              (by rw [hrest]; dsimp only; omega) hrest
            refine ⟨e', ?_, ?_⟩
            · rw [OrderBook.matchLoop, if_neg (Nat.ne_of_gt hwant), hcross]
              dsimp only
              rw [hhead, sweep_whole hsuits hwant hle]
              simp only [Option.bind_eq_bind, Option.bind_some, hloop]
              rfl
            · have hmatched : b.matched side price want =
                  Book.matched { b.set side.other rest with nextTradeId := b.nextTradeId + 1 }
                    side price (want - m.qty) := by
                unfold Book.matched
                rw [hqueue, sweep_whole hsuits hwant hle, hrest, Book.set_set]
                dsimp only
                rw [List.length_cons, Nat.add_assoc, Nat.add_comm 1]
              rw [hmatched]
              exact hrep'

end Loop

/-! ### The calls -/

/-- The quantity that a call asks for. -/
def Call.qty : Call H → ℕ
  | .place _ _ _ qty _ => qty
  | .cancel _ _ => 0
  | .replace _ _ newQty _ => newQty

/-- There is a slot for one more order, and neither a level's total nor the trade ids overflow. -/
structure Room (b : Book H) (c : Call H) : Prop where
  slot : b.bids.length + b.asks.length < NIL
  total : quantity (b.bids ++ b.asks) + c.qty < 2 ^ 64
  trades : b.nextTradeId + (b.bids.length + b.asks.length) < 2 ^ 64

instance (b : Book H) (c : Call H) : Decidable (Room b c) :=
  decidable_of_iff (b.bids.length + b.asks.length < NIL ∧
    quantity (b.bids ++ b.asks) + c.qty < 2 ^ 64 ∧
    b.nextTradeId + (b.bids.length + b.asks.length) < 2 ^ 64)
    ⟨fun h => ⟨h.1, h.2.1, h.2.2⟩, fun h => ⟨h.slot, h.total, h.trades⟩⟩

section Calls

variable {e : OrderBook H} {b : Book H} {side : Side} {m : Order H}
  {orderId price qty newPrice newQty : ℕ} {who : H}

theorem length_of_sides (b : Book H) (side : Side) :
    (b.of side).length + (b.of side.other).length = b.bids.length + b.asks.length := by
  have hlen := (perm_of_sides b side).length_eq
  rw [List.length_append, List.length_append] at hlen
  exact hlen.symm

theorem quantity_perm {ms ns : List (Order H)} (h : ms.Perm ns) : quantity ms = quantity ns :=
  (h.map Maker.qty).sum_eq

theorem quantity_sublist {ms ns : List (Order H)} (h : ms.Sublist ns) :
    quantity ms ≤ quantity ns := by
  induction h with
  | slnil => exact le_rfl
  | cons m h ih =>
      rw [quantity_cons]
      omega
  | cons_cons m h ih =>
      rw [quantity_cons, quantity_cons]
      omega

theorem quantity_of_sides (b : Book H) (side : Side) :
    quantity (b.of side) + quantity (b.of side.other) = quantity (b.bids ++ b.asks) := by
  rw [quantity_perm (perm_of_sides b side), quantity_append]

/-- The index is at least as long as a queue. -/
theorem Represents.length_lt (h : Represents e b) (side : Side) :
    (b.of side).length < e.index.entries.length + 1 := by
  have hsub : (b.of side).map Maker.id ⊆ e.index.keys := by
    intro i hi
    obtain ⟨m, hm, rfl⟩ := List.mem_map.mp hi
    rw [← AList.mem_keys, ← AList.lookup_isSome, (h.held side m hm).1]
    rfl
  have hle := (List.subperm_of_subset (h.sound.nodup side) hsub).length_le
  rw [List.length_map] at hle
  have hkeys : e.index.keys.length = e.index.entries.length := List.length_map ..
  omega

/-- **A limit order enters.** -/
theorem Represents.enter (h : Represents e b) (side : Side) (price qty : ℕ) (who : H)
    (hnone : b.find orderId = none)
    (hslot : b.bids.length + b.asks.length < NIL)
    (hsum : quantity (b.bids ++ b.asks) + qty < 2 ^ 64)
    (htrade : b.nextTradeId + (b.bids.length + b.asks.length) < 2 ^ 64) :
    ∃ e₁ remaining trades e₂ ack,
      OrderBook.matchLoop orderId side price who (e.index.entries.length + 1) e qty =
        some (e₁, remaining, trades) ∧
      e₁.restRemainder orderId side price remaining who = some (e₂, ack) ∧
      trades ++ ack = (b.enter orderId side price qty who).2 ∧
      Represents e₂ (b.enter orderId side price qty who).1 := by
  have hsides := length_of_sides b side
  obtain ⟨e₁, hloop, hrep⟩ := h.matchLoop orderId price who qty _
    (h.length_lt side.other) (by omega)
  by_cases hleft : (sweep (suits side price) (b.of side.other) qty).2.2 = 0
  · refine ⟨e₁, _, _, e₁, [], hloop, if_pos hleft, ?_, ?_⟩
    · rw [Book.enter_filled hleft, List.append_nil]
    · rw [Book.enter_filled hleft]
      exact hrep
  · have hswept := swept (suits side price) (b.of side.other) qty
    have htags : (sweep (suits side price) (b.of side.other) qty).2.1.length ≤
        (b.of side.other).length := by
      simpa only [List.length_map] using hswept.tags.length_le
    have htaken : taken (sweep (suits side price) (b.of side.other) qty).1 +
        (sweep (suits side price) (b.of side.other) qty).2.2 = qty := hswept.taken_add
    have hfind : (b.matched side price qty).find orderId = none := by
      rw [Book.find_eq_none] at hnone ⊢
      intro s n hn
      obtain ⟨n', hn', hid, -⟩ := Book.exists_of_matched hn
      exact hid ▸ hnone s n' hn'
    have hlen := length_of_sides (b.matched side price qty) side
    rw [Book.of_matched, Book.of_matched_other] at hlen
    have hlevel : quantity (level ((b.matched side price qty).of side) price) ≤
        quantity (b.of side) := by
      rw [Book.of_matched]
      exact quantity_sublist List.filter_sublist
    have hqty := quantity_of_sides b side
    obtain ⟨e₂, hrest, hrep₂⟩ := hrep.rest side
      (m := ⟨orderId, price, (sweep (suits side price) (b.of side.other) qty).2.2, who⟩) hfind
      (Nat.pos_of_ne_zero hleft) (h.sound.stops hleft) (by omega) (by dsimp only; omega)
    refine ⟨e₁, _, _, e₂,
      [.ack who orderId (sweep (suits side price) (b.of side.other) qty).2.2], hloop, ?_, ?_, ?_⟩
    · unfold OrderBook.restRemainder
      rw [if_neg hleft]
      dsimp only at hrest
      rw [hrest]
      rfl
    · rw [Book.enter_rests hleft]
    · rw [Book.enter_rests hleft]
      rw [Book.of_matched] at hrep₂
      exact hrep₂

theorem Represents.place (h : Represents e b)
    (hroom : Room b (.place orderId side price qty who)) :
    ∃ e', e.place orderId side price qty who =
        some (e', (b.place orderId side price qty who).2) ∧
      Represents e' (b.place orderId side price qty who).1 := by
  unfold OrderBook.place Book.place
  by_cases hbad : qty = 0 ∨ price = 0
  · rw [if_pos hbad, if_pos hbad]
    exact ⟨e, rfl, h⟩
  rw [if_neg hbad, if_neg hbad, h.lookup_eq]
  by_cases hdup : (b.find orderId).isSome
  · rw [if_pos hdup, if_pos hdup]
    exact ⟨e, rfl, h⟩
  rw [if_neg hdup, if_neg hdup]
  obtain ⟨e₁, remaining, trades, e₂, ack, hloop, hrest, hevents, hrep⟩ :=
    h.enter side price qty who
      (Option.not_isSome_iff_eq_none.mp hdup) hroom.slot hroom.total hroom.trades
  refine ⟨e₂, ?_, hrep⟩
  simp only [Option.bind_eq_bind, hloop, Option.bind_some, hrest, hevents, h.bbo, hrep.bbo]

theorem Represents.cancel (h : Represents e b) (orderId : ℕ) (who : H) :
    ∃ e', e.cancel orderId who = some (e', (b.cancel orderId who).2) ∧
      Represents e' (b.cancel orderId who).1 := by
  unfold OrderBook.cancel Book.cancel
  rcases hfind : b.find orderId with _ | ⟨side, m⟩
  · rw [h.indexed orderId hfind]
    exact ⟨e, rfl, h⟩
  · obtain ⟨hm, rfl⟩ := Book.mem_of_find hfind
    rw [(h.held side m hm).1]
    obtain ⟨e', hunlink, hrep⟩ := h.unlink hm
    refine ⟨e', ?_, hrep⟩
    simp only [hunlink, Option.bind_eq_bind, Option.bind_some, h.bbo, hrep.bbo]

/-- The changes of the top are not among the events of an order that enters. -/
theorem filter_enter (b : Book H) (orderId : ℕ) (side : Side) (price qty : ℕ) (who : H) :
    (b.enter orderId side price qty who).2.filter (fun ev => !OrderBook.isBbo ev) =
      (b.enter orderId side price qty who).2 := by
  have hfills : ∀ (hits : List (Hit ℕ ℕ H)) (want t : ℕ),
      ∀ ev ∈ fills orderId side who want t hits, OrderBook.isBbo ev = false := by
    intro hits
    induction hits with
    | nil => exact fun _ _ ev hev => absurd hev List.not_mem_nil
    | cons hit hits ih =>
        intro want t ev hev
        rcases List.mem_cons.mp hev with rfl | hev
        · rfl
        · rcases List.mem_cons.mp hev with rfl | hev
          · rfl
          · exact ih _ _ ev hev
  refine List.filter_eq_self.mpr fun ev hev => ?_
  rw [Bool.not_eq_true']
  by_cases hleft : (sweep (suits side price) (b.of side.other) qty).2.2 = 0
  · rw [Book.enter_filled hleft] at hev
    exact hfills _ _ _ ev hev
  · rw [Book.enter_rests hleft] at hev
    rcases List.mem_append.mp hev with hev | hev
    · exact hfills _ _ _ ev hev
    · obtain rfl := List.mem_singleton.mp hev
      rfl

theorem filter_bboNote (x y : Option (ℕ × ℕ) × Option (ℕ × ℕ)) :
    (bboNote x y : List (Event H)).filter (fun ev => !OrderBook.isBbo ev) = [] := by
  unfold bboNote
  split <;> rfl

theorem Represents.replace (h : Represents e b)
    (hroom : Room b (.replace orderId newPrice newQty who)) :
    ∃ e', e.replace orderId newPrice newQty who =
        some (e', (b.replace orderId newPrice newQty who).2) ∧
      Represents e' (b.replace orderId newPrice newQty who).1 := by
  unfold OrderBook.replace Book.replace
  rcases hfind : b.find orderId with _ | ⟨side, m⟩
  · rw [h.indexed orderId hfind]
    exact ⟨e, rfl, h⟩
  obtain ⟨hm, rfl⟩ := Book.mem_of_find hfind
  rw [(h.held side m hm).1]
  dsimp only
  by_cases hbad : newPrice = 0 ∨ newQty = 0
  · rw [if_pos hbad, if_pos hbad]
    exact ⟨e, rfl, h⟩
  rw [if_neg hbad, if_neg hbad]
  obtain ⟨l, r, hsplit⟩ := List.append_of_mem hm
  obtain ⟨n, hnode, -, hside, -⟩ := h.exists_node hsplit
  obtain ⟨e₁, hunlink, hrep⟩ := h.unlink hm
  -- the old order makes room for the new one
  have hnone : (b.remove side m.id).find m.id = none :=
    Book.find_eq_none.mpr (h.sound.fresh_of_remove hfind)
  have hlen := length_of_sides b side
  have hlen₁ := length_of_sides (b.remove side m.id) side
  have hqty := quantity_of_sides b side
  have hqty₁ := quantity_of_sides (b.remove side m.id) side
  have hsub : ((b.remove side m.id).of side).Sublist (b.of side) := by
    rw [Book.remove, Book.of_set]
    exact List.filter_sublist
  have hsame : (b.remove side m.id).of side.other = b.of side.other := Book.of_set_other ..
  have hlenSub := hsub.length_le
  have hqtySub := quantity_sublist hsub
  rw [hsame] at hlen₁ hqty₁
  have hid : (b.remove side m.id).nextTradeId = b.nextTradeId := Book.nextTradeId_set ..
  have hslot := hroom.slot
  have htotal := hroom.total
  have htrades := hroom.trades
  obtain ⟨e₁', remaining, trades, e₂, ack, hloop, hrest, hevents, hrep₂⟩ :=
    hrep.enter side newPrice newQty m.owner hnone
      (by omega) (by simp only [Call.qty] at htotal; omega) (by omega)
  have hplace : e₁.place m.id n.side newPrice newQty m.owner = some (e₂,
      ((b.remove side m.id).enter m.id side newPrice newQty m.owner).2 ++
        bboNote e₁.bbo e₂.bbo) := by
    unfold OrderBook.place
    rw [if_neg (mt Or.symm hbad), hrep.indexed m.id hnone, hside]
    simp only [Option.isSome_none, Option.bind_eq_bind, hloop, Option.bind_some, hrest, hevents]
    rfl
  refine ⟨e₂, ?_, hrep₂⟩
  simp only [hnode, hunlink, hplace, Option.bind_eq_bind, Option.bind_some, List.filter_append,
    filter_enter, filter_bboNote, List.append_nil, h.bbo, hrep₂.bbo]

/-- **A call of the engine** does what the call means. -/
theorem Represents.step (h : Represents e b) {c : Call H} (hroom : Room b c) :
    ∃ e', e.step c = some (e', (b.call c).2) ∧ Represents e' (b.call c).1 := by
  cases c with
  | place orderId side price qty who => exact h.place hroom
  | cancel orderId who => exact h.cancel orderId who
  | replace orderId newPrice newQty who => exact h.replace hroom

end Calls

end KasparHft.MatchingEngine
