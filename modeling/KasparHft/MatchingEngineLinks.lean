import KasparHft.LinkedList
import KasparHft.MatchingEngine

/-!
# The links of the matching engine

The slab is a heap of doubly linked lists (`LinkedList`), one for each level.  `Represents e b`
says that the engine `e` holds the book `b`: the list of each level is the level's queue, its
total the queue's quantity, the index knows the slot of each order, and every slot of the slab
holds one order or is free.

An order that joins the tail of its level keeps this (`Represents.rest`), and so does one that
leaves its level (`Represents.dropped`).
-/

namespace KasparHft.MatchingEngine

open AssocMap LinkedList PriceTime

variable {H : Type}

/-! ### The slab as a heap -/

/-- Where a link points. -/
def link (i : ℕ) : Option ℕ := if i = NIL then none else some i

@[simp] theorem link_NIL : link NIL = none := if_pos rfl

theorem link_of_ne {i : ℕ} (h : i ≠ NIL) : link i = some i := if_neg h

theorem link_eq_none {i : ℕ} : link i = none ↔ i = NIL := by
  unfold link
  split <;> simp_all

theorem link_eq_some {i j : ℕ} : link i = some j ↔ i = j ∧ i ≠ NIL := by
  unfold link
  split <;> simp_all

theorem link_inj {i j : ℕ} (h : link i = link j) : i = j := by
  by_cases hj : j = NIL
  · rw [hj, link_NIL] at h
    exact (link_eq_none.mp h).trans hj.symm
  · rw [link_of_ne hj] at h
    exact (link_eq_some.mp h).1

/-- The links of the slab. -/
def heap (nodes : List (Node H)) : Heap ℕ Unit := fun i =>
  nodes[i]?.map fun n => ⟨(), link n.prev, link n.next⟩

/-- The order in a slot. -/
def data (nodes : List (Node H)) (i : ℕ) : Option (Side × Order H) :=
  nodes[i]?.map fun n => (n.side, ⟨n.orderId, n.price, n.qty, n.originator⟩)

theorem links_heap (nodes : List (Node H)) (i : ℕ) :
    links (heap nodes) i = nodes[i]?.map fun n => (link n.prev, link n.next) := by
  unfold links heap
  rw [Option.map_map]
  rfl

section Slab

variable {nodes nodes' : List (Node H)} {i j x : ℕ}

theorem modifyNode_of_lt (h : i < nodes.length) (f : Node H → Node H) :
    modifyNode nodes i f = some (nodes.modify i f) := if_pos h

theorem links_setNext_heap (i x j : ℕ) :
    links (heap (nodes.modify i fun n => { n with next := x })) j =
      if j = i then (links (heap nodes) i).map fun l => (l.1, link x)
      else links (heap nodes) j := by
  rw [links_heap, links_heap, links_heap]
  by_cases hj : j = i
  · subst hj
    rw [if_pos rfl, List.getElem?_modify_eq, Option.map_map]
    simp only [Option.map_eq_map, Option.map_map]
    rfl
  · rw [if_neg hj, List.getElem?_modify_ne _ _ (Ne.symm hj)]

theorem links_setPrev_heap (i x j : ℕ) :
    links (heap (nodes.modify i fun n => { n with prev := x })) j =
      if j = i then (links (heap nodes) i).map fun l => (link x, l.2)
      else links (heap nodes) j := by
  rw [links_heap, links_heap, links_heap]
  by_cases hj : j = i
  · subst hj
    rw [if_pos rfl, List.getElem?_modify_eq, Option.map_map]
    simp only [Option.map_eq_map, Option.map_map]
    rfl
  · rw [if_neg hj, List.getElem?_modify_ne _ _ (Ne.symm hj)]

/-- A change of links leaves the orders. -/
theorem data_modify {f : Node H → Node H}
    (hf : ∀ n, ((f n).side, (f n).orderId, (f n).price, (f n).qty, (f n).originator) =
      (n.side, n.orderId, n.price, n.qty, n.originator)) (i j : ℕ) :
    data (nodes.modify i f) j = data nodes j := by
  unfold data
  by_cases hj : j = i
  · subst hj
    rw [List.getElem?_modify_eq, Option.map_eq_map, Option.map_map]
    refine congrArg (fun g => Option.map g nodes[j]?) (funext fun n => ?_)
    have hn := hf n
    simp only [Prod.mk.injEq] at hn
    obtain ⟨hside, hid, hprice, hqty, horig⟩ := hn
    simp [hside, hid, hprice, hqty, horig]
  · rw [List.getElem?_modify_ne _ _ (Ne.symm hj)]

/-- A change of the order leaves the links. -/
theorem links_setQty (i qty j : ℕ) :
    links (heap (nodes.modify i fun n => { n with qty := qty })) j = links (heap nodes) j := by
  rw [links_heap, links_heap]
  by_cases hj : j = i
  · subst hj
    rw [List.getElem?_modify_eq, Option.map_eq_map, Option.map_map]
    rfl
  · rw [List.getElem?_modify_ne _ _ (Ne.symm hj)]

theorem data_setQty (i qty j : ℕ) :
    data (nodes.modify i fun n => { n with qty := qty }) j =
      if j = i then (data nodes i).map fun d => (d.1, { d.2 with qty := qty })
      else data nodes j := by
  unfold data
  by_cases hj : j = i
  · subst hj
    rw [if_pos rfl, List.getElem?_modify_eq, Option.map_eq_map, Option.map_map, Option.map_map]
    rfl
  · rw [if_neg hj, List.getElem?_modify_ne _ _ (Ne.symm hj)]

theorem data_setNext (i x j : ℕ) :
    data (nodes.modify i fun n => { n with next := x }) j = data nodes j :=
  data_modify (f := fun n => { n with next := x }) (fun _ => rfl) i j

theorem data_setPrev (i x j : ℕ) :
    data (nodes.modify i fun n => { n with prev := x }) j = data nodes j :=
  data_modify (f := fun n => { n with prev := x }) (fun _ => rfl) i j

end Slab

/-! ### The representation -/

/-- What the map has at a price whose queue is in these slots. -/
def HoldsLevel (h : Heap ℕ Unit) (slots : List ℕ) (total : ℕ) : Option Level → Prop
  | none => slots = []
  | some lvl => slots ≠ [] ∧ lvl.total = total ∧ Linked h (link lvl.head) (link lvl.tail) slots

theorem HoldsLevel.congr {h g : Heap ℕ Unit} {slots : List ℕ} {total : ℕ} {o : Option Level}
    (hl : HoldsLevel h slots total o) (hlinks : ∀ i ∈ slots, links g i = links h i) :
    HoldsLevel g slots total o := by
  cases o with
  | none => exact hl
  | some lvl => exact ⟨hl.1, hl.2.1, hl.2.2.congr hlinks⟩

namespace OrderBook

variable (e : OrderBook H)

def slot (orderId : ℕ) : ℕ := (e.index.lookup orderId).getD NIL

def slots (orders : List (Order H)) : List ℕ := orders.map fun m => e.slot m.id

variable {e}

@[simp] theorem slots_nil : e.slots [] = [] := rfl

@[simp] theorem slots_cons (m : Order H) (ms : List (Order H)) :
    e.slots (m :: ms) = e.slot m.id :: e.slots ms := rfl

@[simp] theorem slots_append (ms ns : List (Order H)) :
    e.slots (ms ++ ns) = e.slots ms ++ e.slots ns := List.map_append

@[simp] theorem slots_eq_nil {ms : List (Order H)} : e.slots ms = [] ↔ ms = [] :=
  List.map_eq_nil_iff

end OrderBook

/-- The engine holds the book. -/
structure Represents (e : OrderBook H) (b : Book H) : Prop where
  sound : b.Sound
  held : ∀ side, ∀ m ∈ b.of side,
    e.index.lookup m.id = some (e.slot m.id) ∧ data e.nodes (e.slot m.id) = some (side, m)
  indexed : ∀ orderId, b.find orderId = none → e.index.lookup orderId = none
  slab : (List.range e.nodes.length).Perm (e.slots (b.bids ++ b.asks) ++ e.free)
  short : e.nodes.length ≤ NIL
  levels : ∀ side px, HoldsLevel (heap e.nodes) (e.slots (level (b.of side) px))
    (quantity (level (b.of side) px)) ((e.book side).lookup px)
  tradeId : e.nextTradeId = b.nextTradeId

theorem represents_new : Represents ({} : OrderBook H) {} where
  sound := sound_empty
  held side := by cases side <;> exact fun m hm => absurd hm List.not_mem_nil
  indexed orderId _ := rfl
  slab := List.Perm.refl _
  short := Nat.zero_le _
  levels side px := by cases side <;> rfl
  tradeId := rfl

section Facts

variable {e : OrderBook H} {b : Book H} {side s : Side} {m n : Order H} {orderId px : ℕ}

theorem perm_of_sides (b : Book H) (side : Side) :
    (b.bids ++ b.asks).Perm (b.of side ++ b.of side.other) := by
  cases side with
  | buy => exact List.Perm.refl _
  | sel => exact List.perm_append_comm

theorem Represents.slab_of (h : Represents e b) (side : Side) :
    (List.range e.nodes.length).Perm (e.slots (b.of side ++ b.of side.other) ++ e.free) :=
  h.slab.trans (((perm_of_sides b side).map _).append_right _)

theorem Represents.slot_lt (h : Represents e b) (hm : m ∈ b.of side) :
    e.slot m.id < e.nodes.length := by
  rw [← List.mem_range, (h.slab_of side).mem_iff]
  exact List.mem_append_left _ (List.mem_map_of_mem (List.mem_append_left _ hm))

/-- Orders in one slot are one order. -/
theorem Represents.slot_inj (h : Represents e b) (hm : m ∈ b.of side) (hn : n ∈ b.of s)
    (hslot : e.slot m.id = e.slot n.id) : m = n := by
  have hdata := (h.held s n hn).2
  rw [← hslot, (h.held side m hm).2] at hdata
  exact congrArg Prod.snd (Option.some.inj hdata)

/-- The index knows the orders of the book and no others. -/
theorem Represents.lookup_eq (h : Represents e b) (orderId : ℕ) :
    (e.index.lookup orderId).isSome = (b.find orderId).isSome := by
  rcases hfind : b.find orderId with _ | ⟨side, m⟩
  · rw [h.indexed orderId hfind]
    rfl
  · obtain ⟨hm, rfl⟩ := Book.mem_of_find hfind
    rw [(h.held side m hm).1]
    rfl

theorem mem_level {ms : List (Order H)} : m ∈ level ms px ↔ m ∈ ms ∧ m.price = px := by
  unfold level
  rw [List.mem_filter, decide_eq_true_eq]

theorem Represents.level_eq_none (h : Represents e b) :
    (e.book side).lookup px = none ↔ level (b.of side) px = [] := by
  have hlevel := h.levels side px
  rcases hlookup : (e.book side).lookup px with _ | lvl
  · rw [hlookup] at hlevel
    simpa using OrderBook.slots_eq_nil.mp hlevel
  · rw [hlookup] at hlevel
    have hne : level (b.of side) px ≠ [] := fun hnil => hlevel.1 (by rw [hnil]; rfl)
    simp [hne]

theorem Represents.mem_keys (h : Represents e b) :
    px ∈ (e.book side).keys ↔ ∃ m ∈ b.of side, m.price = px := by
  rw [← AList.mem_keys, ← AList.lookup_isSome, Option.isSome_iff_ne_none, ne_eq, h.level_eq_none,
    List.eq_nil_iff_forall_not_mem, not_forall_not]
  exact exists_congr fun m => mem_level

/-- **The best price** is the price of the first order. -/
theorem Represents.topPx (h : Represents e b) (side : Side) :
    e.topPx side = (b.of side).head?.map Maker.price := by
  rcases hhead : (b.of side).head? with _ | m
  · have hnil := List.head?_eq_none_iff.mp hhead
    have hkeys : (e.book side).keys = [] := by
      rw [List.eq_nil_iff_forall_not_mem]
      intro px hpx
      obtain ⟨m, hm, -⟩ := h.mem_keys.mp hpx
      rw [hnil] at hm
      exact List.not_mem_nil hm
    cases side with
    | buy => exact (congrArg List.max? hkeys).trans rfl
    | sel => exact (congrArg List.min? hkeys).trans rfl
  · have hm : m ∈ b.of side := List.mem_of_mem_head? hhead
    have hkey : m.price ∈ (e.book side).keys := h.mem_keys.mpr ⟨m, hm, rfl⟩
    have hbest : ∀ px ∈ (e.book side).keys, ¬ better side px m.price := by
      intro px hpx
      obtain ⟨n, hn, rfl⟩ := h.mem_keys.mp hpx
      exact (h.sound.queued side).head_best (better_priority side) hhead n hn
    cases side with
    | buy =>
        exact List.max?_eq_some_iff.mpr ⟨hkey, fun px hpx => Nat.le_of_not_lt (hbest px hpx)⟩
    | sel =>
        exact List.min?_eq_some_iff.mpr ⟨hkey, fun px hpx => Nat.le_of_not_lt (hbest px hpx)⟩

theorem Represents.top (h : Represents e b) (side : Side) : e.top side = best (b.of side) := by
  unfold OrderBook.top best
  rw [h.topPx]
  rcases hhead : (b.of side).head? with _ | m
  · rfl
  · have hm : m ∈ level (b.of side) m.price :=
      mem_level.mpr ⟨List.mem_of_mem_head? hhead, rfl⟩
    have hlevel := h.levels side m.price
    rcases hlookup : (e.book side).lookup m.price with _ | lvl
    · rw [h.level_eq_none.mp hlookup] at hm
      exact absurd hm List.not_mem_nil
    · rw [hlookup] at hlevel
      simp only [Option.map_some, Option.bind_some, hlookup, hlevel.2.1]

/-- **The top of the book** is that of the queues. -/
theorem Represents.bbo (h : Represents e b) : e.bbo = b.bbo :=
  Prod.ext (h.top .buy) (h.top .sel)

end Facts

/-! ### Writing links -/

section Writes

variable {nodes : List (Node H)} {i x : ℕ}

/-- What a write behind a link changes. -/
theorem setNextOf_spec (nodes : List (Node H)) (hi : ∀ t ∈ link i, t < nodes.length) (x : ℕ) :
    ∃ nodes', OrderBook.setNextOf nodes i x = some nodes' ∧ nodes'.length = nodes.length ∧
      (∀ j, data nodes' j = data nodes j) ∧ ∀ j, links (heap nodes') j =
        if link i = some j then (links (heap nodes) j).map fun l => (l.1, link x)
        else links (heap nodes) j := by
  unfold OrderBook.setNextOf
  by_cases hnil : i = NIL
  · subst hnil
    exact ⟨nodes, if_pos rfl, rfl, fun _ => rfl, fun j => by simp⟩
  · rw [link_of_ne hnil] at hi ⊢
    refine ⟨_, (if_neg hnil).trans (modifyNode_of_lt (hi i rfl) _), List.length_modify ..,
      data_setNext i x, fun j => ?_⟩
    rw [links_setNext_heap]
    by_cases hj : j = i
    · subst hj
      rw [if_pos rfl, if_pos rfl]
    · rw [if_neg hj, if_neg fun h => hj (Option.some.inj h).symm]

theorem setPrevOf_spec (nodes : List (Node H)) (hi : ∀ t ∈ link i, t < nodes.length) (x : ℕ) :
    ∃ nodes', OrderBook.setPrevOf nodes i x = some nodes' ∧ nodes'.length = nodes.length ∧
      (∀ j, data nodes' j = data nodes j) ∧ ∀ j, links (heap nodes') j =
        if link i = some j then (links (heap nodes) j).map fun l => (link x, l.2)
        else links (heap nodes) j := by
  unfold OrderBook.setPrevOf
  by_cases hnil : i = NIL
  · subst hnil
    exact ⟨nodes, if_pos rfl, rfl, fun _ => rfl, fun j => by simp⟩
  · rw [link_of_ne hnil] at hi ⊢
    refine ⟨_, (if_neg hnil).trans (modifyNode_of_lt (hi i rfl) _), List.length_modify ..,
      data_setPrev i x, fun j => ?_⟩
    rw [links_setPrev_heap]
    by_cases hj : j = i
    · subst hj
      rw [if_pos rfl, if_pos rfl]
    · rw [if_neg hj, if_neg fun h => hj (Option.some.inj h).symm]

/-- The node at `idx`, which nothing is linked to, is linked behind the last of a list. -/
theorem linkBehind_spec (oldTail : ℕ) {idx : ℕ}
    (htail : ∀ t ∈ link oldTail, t < nodes.length ∧ t ≠ idx)
    (hidx : idx < nodes.length) (hne : idx ≠ NIL)
    (hnode : links (heap nodes) idx = some (none, none)) :
    ∃ nodes', OrderBook.linkBehind nodes oldTail idx = some nodes' ∧
      nodes'.length = nodes.length ∧ (∀ j, data nodes' j = data nodes j) ∧
      links (heap nodes') idx = some (link oldTail, none) ∧
      (∀ t ∈ link oldTail, links (heap nodes') t =
        (links (heap nodes) t).map fun l => (l.1, some idx)) ∧
      ∀ j, j ≠ idx → j ∉ link oldTail → links (heap nodes') j = links (heap nodes) j := by
  unfold OrderBook.linkBehind
  by_cases hnil : oldTail = NIL
  · subst hnil
    exact ⟨nodes, if_pos rfl, rfl, fun _ => rfl, by simpa using hnode, by simp, fun _ _ _ => rfl⟩
  · rw [link_of_ne hnil] at htail ⊢
    obtain ⟨hlt, hother⟩ := htail oldTail rfl
    rw [if_neg hnil, modifyNode_of_lt hlt, Option.bind_some,
      modifyNode_of_lt ((List.length_modify ..).symm ▸ hidx)]
    refine ⟨_, rfl, by rw [List.length_modify, List.length_modify], fun j => ?_, ?_, ?_, ?_⟩
    · rw [data_setPrev, data_setNext]
    · rw [links_setPrev_heap, if_pos rfl, links_setNext_heap, if_neg (Ne.symm hother), hnode,
        Option.map_some, link_of_ne hnil]
    · intro t ht
      obtain rfl := Option.some.inj ht
      rw [links_setPrev_heap, if_neg hother, links_setNext_heap, if_pos rfl, link_of_ne hne]
    · intro j hj hjt
      rw [links_setPrev_heap, if_neg hj, links_setNext_heap,
        if_neg fun h => hjt (congrArg some h.symm)]

end Writes

/-! ### Resting -/

section Rest

variable {e : OrderBook H} {b : Book H} {side : Side} {m : Order H}

theorem Represents.length_eq (h : Represents e b) :
    e.nodes.length = b.bids.length + b.asks.length + e.free.length := by
  have hlen := h.slab.length_eq
  rwa [List.length_range, List.length_append, OrderBook.slots, List.length_map,
    List.length_append] at hlen

/-- A slot is found as long as not all are taken. -/
theorem Represents.exists_alloc (h : Represents e b)
    (hroom : b.bids.length + b.asks.length < NIL) (node : Node H) :
    ∃ nodes free idx, e.alloc node = some (nodes, free, idx) ∧ idx < nodes.length ∧
      nodes.length ≤ NIL ∧
      (List.range nodes.length).Perm (e.slots (b.bids ++ b.asks) ++ idx :: free) ∧
      nodes[idx]? = some node ∧ ∀ j, j ≠ idx → nodes[j]? = e.nodes[j]? := by
  have hlen := h.length_eq
  have hslab := h.slab
  unfold OrderBook.alloc
  rcases hfree : e.free with _ | ⟨i, free⟩
  · rw [hfree, List.length_nil] at hlen
    rw [hfree, List.append_nil] at hslab
    have hlt : e.nodes.length < 2 ^ 32 := by
      have hnil : NIL < 2 ^ 32 := by decide
      omega
    refine ⟨e.nodes ++ [node], [], e.nodes.length, ?_, ?_, ?_, ?_, ?_, ?_⟩
    · dsimp only
      rw [Nat.mod_eq_of_lt hlt]
    · rw [List.length_append]
      exact Nat.lt_succ_self _
    · rw [List.length_append, List.length_singleton]
      omega
    · rw [List.length_append, List.length_singleton, List.range_succ]
      exact hslab.append_right _
    · exact List.getElem?_concat_length
    · intro j hj
      rcases Nat.lt_or_ge j e.nodes.length with hjl | hjl
      · exact List.getElem?_append_left hjl
      · rw [List.getElem?_eq_none hjl, List.getElem?_eq_none]
        rw [List.length_append, List.length_singleton]
        omega
  · rw [hfree] at hslab
    have hi : i < e.nodes.length := by
      rw [← List.mem_range, hslab.mem_iff]
      exact List.mem_append_right _ List.mem_cons_self
    refine ⟨e.nodes.set i node, free, i, if_pos hi, ?_, ?_, ?_, ?_, ?_⟩
    · rwa [List.length_set]
    · rw [List.length_set]
      exact h.short
    · rwa [List.length_set]
    · exact List.getElem?_set_self hi
    · exact fun j hj => List.getElem?_set_ne (Ne.symm hj)

theorem level_file_ne {px : ℕ} (hb : b.Sound) (hpx : m.price ≠ px) :
    level (file (better side) m (b.of side)) px = level (b.of side) px := by
  rw [level_file (hb.queued side) (better_priority side), if_neg hpx]

theorem level_file_self (hb : b.Sound) :
    level (file (better side) m (b.of side)) m.price = level (b.of side) m.price ++ [m] := by
  rw [level_file (hb.queued side) (better_priority side), if_pos rfl]

/-- What has changed when an order has joined its level. -/
theorem Represents.joined (h : Represents e b) (hnone : b.find m.id = none)
    (hsound : (b.set side (file (better side) m (b.of side))).Sound)
    {e' : OrderBook H} {idx : ℕ} {lvl : Level} (hnew : ∀ s, ∀ n ∈ b.of s, e.slot n.id ≠ idx)
    (hindex : e'.index = e.index.insert m.id idx)
    (hslab : (List.range e'.nodes.length).Perm (e.slots (b.bids ++ b.asks) ++ idx :: e'.free))
    (hshort : e'.nodes.length ≤ NIL) (htrade : e'.nextTradeId = e.nextTradeId)
    (hother : e'.book side.other = e.book side.other)
    (hbook : e'.book side = (e.book side).insert m.price lvl)
    (hlvl : HoldsLevel (heap e'.nodes) (e.slots (level (b.of side) m.price) ++ [idx])
      (quantity (level (b.of side) m.price) + m.qty) (some lvl))
    (hnode : data e'.nodes idx = some (side, m))
    (hdata : ∀ j, j ≠ idx → data e'.nodes j = data e.nodes j)
    (hlinks : ∀ j, j ≠ idx → j ∉ e.slots (level (b.of side) m.price) →
      links (heap e'.nodes) j = links (heap e.nodes) j) :
    Represents e' (b.set side (file (better side) m (b.of side))) := by
  have hfresh := Book.find_eq_none.mp hnone
  have hslot : ∀ s, ∀ n ∈ b.of s, e'.slot n.id = e.slot n.id := by
    intro s n hn
    unfold OrderBook.slot
    rw [hindex, AList.lookup_insert_ne (hfresh s n hn)]
  have hslotNew : e'.slot m.id = idx := by
    unfold OrderBook.slot
    rw [hindex, AList.lookup_insert]
    rfl
  have hslots : ∀ s (ms : List (Order H)), (∀ n ∈ ms, n ∈ b.of s) → e'.slots ms = e.slots ms :=
    fun s ms hms => List.map_congr_left fun n hn => hslot s n (hms n hn)
  have hlevels : ∀ s px, e'.slots (level (b.of s) px) = e.slots (level (b.of s) px) := fun s px =>
    hslots s _ fun n hn => (mem_level.mp hn).1
  have hheld : ∀ s, ∀ n ∈ b.of s,
      e'.index.lookup n.id = some (e'.slot n.id) ∧ data e'.nodes (e'.slot n.id) = some (s, n) := by
    intro s n hn
    rw [hslot s n hn, hindex, AList.lookup_insert_ne (hfresh s n hn), hdata _ (hnew s n hn)]
    exact h.held s n hn
  have hperm := file_perm (better side) m (b.of side)
  refine ⟨hsound, forall_side side ?_ ?_, ?_, ?_, hshort,
    forall_side side ?_ ?_, ?_⟩
  · rw [Book.of_set]
    intro n hn
    rcases List.mem_cons.mp (hperm.mem_iff.mp hn) with rfl | hn
    · rw [hslotNew, hindex, AList.lookup_insert]
      exact ⟨rfl, hnode⟩
    · exact hheld side n hn
  · rw [Book.of_set_other]
    exact hheld side.other
  · intro orderId hmissing
    have hall := Book.find_eq_none.mp hmissing
    have hne : orderId ≠ m.id := by
      rintro rfl
      refine hall side m ?_ rfl
      rw [Book.of_set]
      exact hperm.mem_iff.mpr List.mem_cons_self
    rw [hindex, AList.lookup_insert_ne hne]
    refine h.indexed orderId (Book.find_eq_none.mpr (forall_side side ?_ ?_))
    · intro n hn
      refine hall side n ?_
      rw [Book.of_set]
      exact hperm.mem_iff.mpr (List.mem_cons_of_mem _ hn)
    · intro n hn
      refine hall side.other n ?_
      rwa [Book.of_set_other]
  · refine hslab.trans ?_
    have hsides := (perm_of_sides (b.set side (file (better side) m (b.of side))) side).map
      fun n => e'.slot n.id
    rw [Book.of_set, Book.of_set_other] at hsides
    have hall := ((perm_of_sides b side).map fun n => e.slot n.id).append_right (idx :: e'.free)
    refine hall.trans (List.Perm.trans ?_ (hsides.symm.append_right _))
    rw [List.map_append, List.map_append, List.map_congr_left fun n hn => hslot side.other n hn]
    have hside := ((hperm.map fun n => e'.slot n.id).append_right
      ((b.of side.other).map fun n => e.slot n.id)).append_right e'.free
    refine List.Perm.trans ?_ hside.symm
    rw [List.map_cons, hslotNew, List.map_congr_left fun n hn => hslot side n hn]
    exact List.perm_middle
  · intro px
    rw [Book.of_set, hbook]
    by_cases hpx : m.price = px
    · subst hpx
      rw [level_file_self h.sound, AList.lookup_insert, OrderBook.slots_append, hlevels,
        quantity_append, OrderBook.slots_cons, OrderBook.slots_nil, hslotNew, quantity_cons,
        quantity_nil, Nat.add_zero]
      exact hlvl
    · rw [level_file_ne h.sound hpx, AList.lookup_insert_ne (Ne.symm hpx), hlevels]
      refine (h.levels side px).congr fun i hi => ?_
      obtain ⟨n, hn, rfl⟩ := List.mem_map.mp hi
      obtain ⟨hn, hprice⟩ := mem_level.mp hn
      refine hlinks _ (hnew side n hn) fun hmem => ?_
      obtain ⟨n', hn', heq⟩ := List.mem_map.mp hmem
      obtain ⟨hn', hprice'⟩ := mem_level.mp hn'
      have hsame := h.slot_inj hn hn' heq.symm
      exact hpx (hprice'.symm.trans (hsame ▸ hprice))
  · intro px
    rw [Book.of_set_other, hother, hlevels]
    refine (h.levels side.other px).congr fun i hi => ?_
    obtain ⟨n, hn, rfl⟩ := List.mem_map.mp hi
    have hn := (mem_level.mp hn).1
    refine hlinks _ (hnew side.other n hn) fun hmem => ?_
    obtain ⟨n', hn', heq⟩ := List.mem_map.mp hmem
    have hn' := (mem_level.mp hn').1
    exact h.sound.apart side n' hn' n hn (congrArg Maker.id (h.slot_inj hn' hn heq))
  · rw [htrade, h.tradeId, Book.nextTradeId_set]

@[simp] theorem book_setBook (side : Side) (levels : Map ℕ Level) (nodes : List (Node H))
    (free : List ℕ) (index : Map ℕ ℕ) (t : ℕ) :
    OrderBook.book { e.setBook side levels with
      nodes := nodes, free := free, index := index, nextTradeId := t } side = levels := by
  cases side <;> rfl

@[simp] theorem book_setBook_other (side : Side) (levels : Map ℕ Level) (nodes : List (Node H))
    (free : List ℕ) (index : Map ℕ ℕ) (t : ℕ) :
    OrderBook.book { e.setBook side levels with
      nodes := nodes, free := free, index := index, nextTradeId := t } side.other =
        e.book side.other := by
  cases side <;> rfl

theorem nextTradeId_setBook (side : Side) (levels : Map ℕ Level) :
    (e.setBook side levels).nextTradeId = e.nextTradeId := by
  cases side <;> rfl

/-- **An order joins the tail of its level.** -/
theorem Represents.rest (h : Represents e b) (side : Side) (hnone : b.find m.id = none)
    (hpos : 0 < m.qty)
    (hnot : ∀ n ∈ b.of side.other, suits side m.price n.price = false)
    (hroom : b.bids.length + b.asks.length < NIL)
    (hsum : quantity (level (b.of side) m.price) + m.qty < 2 ^ 64) :
    ∃ e', e.restOrder m.id side m.price m.qty m.owner = some e' ∧
      Represents e' (b.set side (file (better side) m (b.of side))) := by
  have hsound := h.sound.filed (Book.find_eq_none.mp hnone) hpos hnot
  obtain ⟨nodes, free, idx, halloc, hidx, hshort, hslab, hnode, hsame⟩ := h.exists_alloc hroom
    ⟨m.id, side, m.price, m.qty, m.owner, NIL, NIL⟩
  have hne : idx ≠ NIL := Nat.ne_of_lt (Nat.lt_of_lt_of_le hidx hshort)
  have hmem : ∀ s, ∀ n ∈ b.of s, e.slot n.id ∈ e.slots (b.bids ++ b.asks) := fun s n hn =>
    List.mem_map_of_mem ((perm_of_sides b s).mem_iff.mpr (List.mem_append_left _ hn))
  have hnew : ∀ s, ∀ n ∈ b.of s, e.slot n.id ≠ idx := fun s n hn heq =>
    (List.nodup_append.mp (hslab.nodup_iff.mp List.nodup_range)).2.2 _ (hmem s n hn) idx
      List.mem_cons_self heq
  have hslot : ∀ t ∈ e.slots (level (b.of side) m.price), t < nodes.length ∧ t ≠ idx := by
    intro t ht
    obtain ⟨n, hn, rfl⟩ := List.mem_map.mp ht
    have hn := (mem_level.mp hn).1
    refine ⟨?_, hnew side n hn⟩
    rw [← List.mem_range, hslab.mem_iff]
    exact List.mem_append_left _ (hmem side n hn)
  -- the level before the order joins it
  obtain ⟨lvl, hlvl, htail, htotal, hends⟩ : ∃ lvl : Level,
      ((e.book side).lookup m.price).getD ⟨NIL, NIL, 0⟩ = lvl ∧
      ((e.book side).lookup m.price).elim NIL Level.tail = lvl.tail ∧
      lvl.total = quantity (level (b.of side) m.price) ∧
      Linked (heap e.nodes) (link lvl.head) (link lvl.tail)
        (e.slots (level (b.of side) m.price)) := by
    have hlevel := h.levels side m.price
    rcases hlookup : (e.book side).lookup m.price with _ | lvl
    · rw [hlookup] at hlevel
      refine ⟨⟨NIL, NIL, 0⟩, rfl, rfl, ?_, ?_⟩
      · rw [OrderBook.slots_eq_nil.mp hlevel]
        rfl
      · rw [show e.slots (level (b.of side) m.price) = [] from hlevel, link_NIL]
        exact linked_nil _
    · rw [hlookup] at hlevel
      exact ⟨lvl, rfl, rfl, hlevel.2.1, hlevel.2.2⟩
  have hnodes : ∀ j, j ≠ idx → links (heap nodes) j = links (heap e.nodes) j := fun j hj => by
    rw [links_heap, links_heap, hsame j hj]
  obtain ⟨nodes', hbehind, hlen, hdata, hlinkNew, hlinkTail, hlinkRest⟩ :=
    linkBehind_spec lvl.tail (fun t ht =>
      hslot t (List.mem_of_getLast? (hends.tail_eq ▸ ht))) hidx hne (by
        rw [links_heap, hnode]
        simp)
  have hrested : e.restOrder m.id side m.price m.qty m.owner =
      some { e.setBook side ((e.book side).insert m.price
          ⟨if lvl.head = NIL then idx else lvl.head, idx,
            quantity (level (b.of side) m.price) + m.qty⟩) with
        nodes := nodes', free := free, index := e.index.insert m.id idx } := by
    unfold OrderBook.restOrder
    rw [halloc]
    simp only [Option.bind_eq_bind, Option.bind_some, htail, hbehind, hlvl]
    rw [add64, htotal, if_pos hsum]
    rfl
  refine ⟨_, hrested, h.joined hnone hsound hnew rfl (hlen ▸ hslab) (hlen ▸ hshort)
    (nextTradeId_setBook ..) (book_setBook_other ..) (book_setBook ..) ?_ ?_ ?_ ?_⟩
  · refine ⟨by simp, rfl, ?_⟩
    have hpush := hends.push (g := heap nodes') (a := idx) (fun ht => (hslot idx ht).2 rfl)
      (by rw [hlinkNew, hends.tail_eq]) (fun t ht => ?_) (fun t ht hlast => ?_)
    · have hhead : link (if lvl.head = NIL then idx else lvl.head) =
          (e.slots (level (b.of side) m.price) ++ [idx]).head? := by
        have hhead := hends.head_eq
        by_cases hnil : lvl.head = NIL
        · rw [if_pos hnil, link_of_ne hne]
          rw [hnil, link_NIL] at hhead
          rw [List.head?_append, ← hhead]
          rfl
        · rw [if_neg hnil]
          rw [List.head?_append, ← hhead, link_of_ne hnil]
          rfl
      rw [hhead, link_of_ne hne]
      exact hpush
    · rw [hlinkTail t (hends.tail_eq ▸ ht), hnodes t (hslot t (List.mem_of_getLast? ht)).2]
    · rw [hlinkRest t (hslot t ht).2 (hends.tail_eq ▸ hlast), hnodes t (hslot t ht).2]
  · rw [hdata]
    unfold data
    rw [hnode]
    rfl
  · intro j hj
    rw [hdata]
    unfold data
    rw [hsame j hj]
  · intro j hj hjt
    rw [hlinkRest j hj fun hlast => hjt (List.mem_of_getLast? (hends.tail_eq ▸ hlast)),
      hnodes j hj]

end Rest

/-! ### Leaving a level -/

section Drop

variable {e : OrderBook H} {b : Book H} {side : Side} {m : Order H} {l r : List (Order H)}

/-- The queue without one of its orders. -/
theorem Book.Sound.filter_split (h : b.Sound) (hsplit : b.of side = l ++ m :: r) :
    ((b.of side).filter fun n => n.id ≠ m.id) = l ++ r := by
  have hnodup := h.nodup side
  rw [hsplit, List.map_append, List.map_cons] at hnodup
  have hne : ∀ n ∈ l ++ r, n.id ≠ m.id := by
    intro n hn heq
    have hmem : m.id ∈ l.map Maker.id ++ r.map Maker.id := by
      rw [← List.map_append, ← heq]
      exact List.mem_map_of_mem hn
    exact (List.nodup_cons.mp (List.nodup_middle.mp hnodup)).1 hmem
  rw [hsplit, List.filter_append, List.filter_cons_of_neg (by simp), ← List.filter_append,
    List.filter_eq_self]
  exact fun n hn => decide_eq_true (hne n hn)

theorem level_split (hsplit : b.of side = l ++ m :: r) :
    level (b.of side) m.price = level l m.price ++ m :: level r m.price := by
  unfold level
  rw [hsplit, List.filter_append, List.filter_cons_of_pos (by simp)]

theorem level_split_ne {px : ℕ} (hsplit : b.of side = l ++ m :: r) (hpx : m.price ≠ px) :
    level (b.of side) px = level (l ++ r) px := by
  unfold level
  rw [hsplit, List.filter_append, List.filter_append, List.filter_cons_of_neg (by simpa using hpx)]

theorem level_append (ms ns : List (Order H)) (px : ℕ) :
    level (ms ++ ns) px = level ms px ++ level ns px := List.filter_append ..

/-- What has changed when an order has left its level. -/
theorem Represents.dropped (h : Represents e b) (hsplit : b.of side = l ++ m :: r)
    (e' : OrderBook H) (hindex : e'.index = e.index.erase m.id)
    (hfree : e'.free = e.slot m.id :: e.free) (hlen : e'.nodes.length = e.nodes.length)
    (hother : e'.book side.other = e.book side.other)
    (hbook : ∀ px, px ≠ m.price → (e'.book side).lookup px = (e.book side).lookup px)
    (hlvl : HoldsLevel (heap e'.nodes) (e.slots (level l m.price ++ level r m.price))
      (quantity (level l m.price ++ level r m.price)) ((e'.book side).lookup m.price))
    (hdata : ∀ j, j ≠ e.slot m.id → data e'.nodes j = data e.nodes j)
    (hlinks : ∀ j, j ∉ e.slots (level (b.of side) m.price) →
      links (heap e'.nodes) j = links (heap e.nodes) j) :
    Represents e' { b.remove side m.id with nextTradeId := e'.nextTradeId } := by
  have hm : m ∈ b.of side := by
    rw [hsplit]
    exact List.mem_append_right _ List.mem_cons_self
  have hfilter := h.sound.filter_split hsplit
  have hside : (b.remove side m.id).of side = l ++ r := by
    unfold Book.remove
    rw [Book.of_set, hfilter]
  have hsideOther : (b.remove side m.id).of side.other = b.of side.other := Book.of_set_other ..
  have hremoved := h.sound.remove side m.id
  have hmem : ∀ s, ∀ n ∈ (b.remove side m.id).of s, n ∈ b.of s ∧ n.id ≠ m.id := by
    refine forall_side side (fun n hn => ?_) fun n hn => ?_
    · unfold Book.remove at hn
      rw [Book.of_set] at hn
      simpa using List.mem_filter.mp hn
    · rw [hsideOther] at hn
      exact ⟨hn, (h.sound.apart side m hm n hn).symm⟩
  have hslot : ∀ s, ∀ n ∈ (b.remove side m.id).of s, e'.slot n.id = e.slot n.id := by
    intro s n hn
    unfold OrderBook.slot
    rw [hindex, AList.lookup_erase_ne (hmem s n hn).2]
  have hslots : ∀ s (ms : List (Order H)), (∀ n ∈ ms, n ∈ (b.remove side m.id).of s) →
      e'.slots ms = e.slots ms :=
    fun s ms hms => List.map_congr_left fun n hn => hslot s n (hms n hn)
  have hlevels : ∀ s px, e'.slots (level ((b.remove side m.id).of s) px) =
      e.slots (level ((b.remove side m.id).of s) px) := fun s px =>
    hslots s _ fun n hn => (mem_level.mp hn).1
  refine ⟨⟨fun s => ?_, fun s => ?_, fun s => ?_, fun s => ?_, hremoved.uncrossed⟩, fun s => ?_,
    ?_, ?_, hlen ▸ h.short, fun s => ?_, rfl⟩
  · rw [Book.of_nextTradeId]
    exact hremoved.queued s
  · rw [Book.of_nextTradeId]
    exact hremoved.nodup s
  · rw [Book.of_nextTradeId, Book.of_nextTradeId]
    exact hremoved.apart s
  · rw [Book.of_nextTradeId]
    exact hremoved.positive s
  · rw [Book.of_nextTradeId]
    intro n hn
    obtain ⟨hold, hid⟩ := hmem s n hn
    have hne : e.slot n.id ≠ e.slot m.id := fun heq =>
      hid (congrArg Maker.id (h.slot_inj hold hm heq))
    rw [hslot s n hn, hindex, AList.lookup_erase_ne hid, hdata _ hne]
    exact h.held s n hold
  · intro orderId hmissing
    have hall := Book.find_eq_none.mp hmissing
    rw [hindex]
    by_cases hid : orderId = m.id
    · rw [hid, AList.lookup_erase]
    · rw [AList.lookup_erase_ne hid]
      refine h.indexed orderId (Book.find_eq_none.mpr fun s n hn => ?_)
      by_cases hnm : n.id = m.id
      · exact fun heq => hid (heq.symm.trans hnm)
      · refine hall s n ?_
        rw [Book.of_nextTradeId]
        rcases eq_or_eq_other s side with rfl | rfl
        · unfold Book.remove
          rw [Book.of_set]
          exact List.mem_filter.mpr ⟨hn, decide_eq_true hnm⟩
        · rwa [hsideOther]
  · rw [hlen, hfree]
    have hnew : (e'.slots ((b.remove side m.id).bids ++ (b.remove side m.id).asks)).Perm
        (e.slots (l ++ r) ++ e.slots (b.of side.other)) := by
      refine ((perm_of_sides (b.remove side m.id) side).map fun n => e'.slot n.id).trans
        (List.Perm.of_eq ?_)
      change e'.slots (_ ++ _) = _
      rw [OrderBook.slots_append, hslots side _ fun _ hn => hn,
        hslots side.other _ fun _ hn => hn, hside, hsideOther]
    refine (h.slab_of side).trans (List.Perm.trans ?_ (hnew.symm.append_right _))
    rw [hsplit]
    -- the slot goes from the orders to the free ones
    simp only [OrderBook.slots_append, OrderBook.slots_cons, List.append_assoc, List.cons_append]
    refine List.perm_middle.trans ?_
    rw [← List.append_assoc, ← List.append_assoc (e.slots l), ← List.append_assoc _ _ (_ :: _),
      ← List.append_assoc _ _ e.free]
    exact List.perm_middle.symm
  · intro px
    rw [Book.of_nextTradeId]
    rcases eq_or_eq_other s side with rfl | rfl
    · rw [hlevels, hside]
      by_cases hpx : px = m.price
      · rw [hpx, level_append]
        exact hlvl
      · rw [hbook px hpx, ← level_split_ne hsplit (Ne.symm hpx)]
        refine (h.levels s px).congr fun i hi => hlinks i fun hmem' => ?_
        obtain ⟨n, hn, rfl⟩ := List.mem_map.mp hi
        obtain ⟨n', hn', heq⟩ := List.mem_map.mp hmem'
        obtain ⟨hn, hprice⟩ := mem_level.mp hn
        obtain ⟨hn', hprice'⟩ := mem_level.mp hn'
        have hsame := h.slot_inj hn hn' heq.symm
        exact hpx (hprice.symm.trans (hsame ▸ hprice'))
    · rw [hlevels, hsideOther, hother]
      refine (h.levels side.other px).congr fun i hi => hlinks i fun hmem' => ?_
      obtain ⟨n, hn, rfl⟩ := List.mem_map.mp hi
      obtain ⟨n', hn', heq⟩ := List.mem_map.mp hmem'
      have hn := (mem_level.mp hn).1
      have hn' := (mem_level.mp hn').1
      exact h.sound.apart side n' hn' n hn (congrArg Maker.id (h.slot_inj hn' hn heq))

/-- The node of an order, and the nodes its links point at. -/
theorem Represents.exists_node (h : Represents e b) (hsplit : b.of side = l ++ m :: r) :
    ∃ n, e.nodes[e.slot m.id]? = some n ∧ n.orderId = m.id ∧ n.side = side ∧
      n.price = m.price ∧ n.qty = m.qty ∧ n.originator = m.owner ∧
      link n.prev = (e.slots (level l m.price)).getLast? ∧
      link n.next = (e.slots (level r m.price)).head? := by
  have hm : m ∈ b.of side := by
    rw [hsplit]
    exact List.mem_append_right _ List.mem_cons_self
  obtain ⟨n, hn, hdata⟩ := Option.map_eq_some_iff.mp (h.held side m hm).2
  obtain ⟨hside, hmaker⟩ := Prod.mk.inj hdata
  have hlevel := h.levels side m.price
  rcases hlookup : (e.book side).lookup m.price with _ | lvl
  · have hnil := h.level_eq_none.mp hlookup
    rw [level_split hsplit] at hnil
    exact absurd hnil (by simp)
  · rw [hlookup, level_split hsplit, OrderBook.slots_append, OrderBook.slots_cons] at hlevel
    have hlinks := hlevel.2.2.links
    rw [links_heap, hn] at hlinks
    obtain ⟨hprev, hnext⟩ := Prod.mk.inj (Option.some.inj hlinks)
    subst hmaker
    exact ⟨n, hn, rfl, hside, rfl, rfl, rfl, hprev, hnext⟩

/-- Writing around a node that leaves its list. -/
theorem Represents.unlinked (h : Represents e b) (hsplit : b.of side = l ++ m :: r)
    {lvl : Level} (hlvl : (e.book side).lookup m.price = some lvl) (nodes : List (Node H))
    (hprev : ∀ j ∈ (e.slots (level l m.price)).getLast?, links (heap nodes) j =
      (links (heap e.nodes) j).map fun p => (p.1, (e.slots (level r m.price)).head?))
    (hnext : ∀ j ∈ (e.slots (level r m.price)).head?, links (heap nodes) j =
      (links (heap e.nodes) j).map fun p => ((e.slots (level l m.price)).getLast?, p.2))
    (hrest : ∀ j, j ∉ (e.slots (level l m.price)).getLast? →
      j ∉ (e.slots (level r m.price)).head? → links (heap nodes) j = links (heap e.nodes) j) :
    Linked (heap nodes) (e.slots (level l m.price ++ level r m.price)).head?
      (e.slots (level l m.price ++ level r m.price)).getLast?
      (e.slots (level l m.price ++ level r m.price)) := by
  have hlevel := h.levels side m.price
  rw [hlvl, level_split hsplit, OrderBook.slots_append, OrderBook.slots_cons] at hlevel
  rw [OrderBook.slots_append]
  exact hlevel.2.2.unlink hprev hnext fun j _ => hrest j

end Drop

end KasparHft.MatchingEngine
