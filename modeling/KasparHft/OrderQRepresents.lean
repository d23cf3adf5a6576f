import KasparHft.Machine
import KasparHft.OrderBookFill
import KasparHft.OrderQ
import Mathlib.Algebra.Order.BigOperators.Group.List
import Mathlib.Tactic.Ring

/-!
# What a level's queue represents

`Represents q ns`: the pointers, the index and the counters of `q` are those of the orders
`ns`, each given with its pointer, from head to tail.  Each call of the queue, wherever it
does not abort, leads from a queue that represents a list to a queue that represents what
`OrderBook` makes of that list.
-/

namespace KasparHft.OB

open AssocMap LinkedList Machine

/-! ### Totals of a list of orders -/

@[simp] theorem ordersInBook_nil : ordersInBook [] = 0 := rfl

@[simp] theorem ordersInBook_append (q q' : List Order) :
    ordersInBook (q ++ q') = ordersInBook q + ordersInBook q' := by
  simp [ordersInBook]

theorem ordersInBook_cons (o : Order) (q : List Order) :
    ordersInBook (o :: q) = (if o.isSim then 0 else o.sz) + ordersInBook q := by
  cases ho : o.isSim <;> simp [ordersInBook, ho]

theorem ordersInBook_nonneg {q : List Order} (h : ∀ o ∈ q, 0 < o.sz) : 0 ≤ ordersInBook q := by
  apply List.sum_nonneg
  intro sz hsz
  obtain ⟨o, ho, rfl⟩ := List.mem_map.mp hsz
  exact (h o (List.mem_of_mem_filter ho)).le

theorem reals_cons_length (o : Order) (q : List Order) :
    ((reals (o :: q)).length : ℤ) = (if o.isSim then 0 else 1) + (reals q).length := by
  cases ho : o.isSim
  · rw [reals_cons_of_real ho]
    simp [add_comm]
  · rw [reals_cons_of_sim ho]
    simp

theorem leftSz_eq_some {dispSz sz : ℤ} {modtyp : Mt} :
    leftSz dispSz modtyp = some sz ↔
      (modtyp = .cancd ∧ sz = 0) ∨ (modtyp = .canc ∧ 0 < dispSz ∧ sz = dispSz) := by
  cases modtyp <;> simp [leftSz, eq_comm]

/-- The cancel of `OrderBook`, in the parts of `Order::canc_notify`. -/
theorem cancNotify_eq_some {o : Order} {dispSz : ℤ} {modtyp : Mt} {left : Option Order}
    {notes : List Note} :
    o.cancNotify dispSz modtyp = some (left, notes) ↔
      0 ≤ dispSz ∧ 0 < o.sz ∧ ∃ sz, leftSz dispSz modtyp = some sz ∧ o.cancAck sz = some notes ∧
        left = if sz = 0 ∨ modtyp = .cancd then none else some { o with sz := sz } := by
  have heq : o.cancNotify dispSz modtyp =
      if dispSz < 0 ∨ o.sz ≤ 0 then none
      else (leftSz dispSz modtyp).bind fun sz => (o.cancAck sz).map fun ack =>
        (if sz = 0 ∨ modtyp = .cancd then none else some { o with sz := sz }, ack) := by
    unfold Order.cancNotify
    split
    · rfl
    · refine congrArg (Option.bind (leftSz dispSz modtyp)) (funext fun sz => ?_)
      unfold Order.cancAck
      cases o.originator with
      | none => rfl
      | some dest => cases o.isSim <;> rfl
  rw [heq]
  split
  · next hguard =>
    simp only [reduceCtorEq, false_iff]
    rintro ⟨hdisp, hsz, -⟩
    rcases hguard with h | h
    · exact absurd hdisp (not_le.mpr h)
    · exact absurd hsz (not_lt.mpr h)
  · next hguard =>
    obtain ⟨hdisp, hsz⟩ := not_or.mp hguard
    simp only [Option.bind_eq_some_iff, Option.map_eq_some_iff, Prod.mk.injEq]
    constructor
    · rintro ⟨sz, hleft, ack, hack, hlist, rfl⟩
      exact ⟨not_lt.mp hdisp, not_le.mp hsz, sz, hleft, hack, hlist.symm⟩
    · rintro ⟨-, -, sz, hleft, hack, hlist⟩
      exact ⟨sz, hleft, notes, hack, hlist.symm, rfl⟩

theorem int32_eq_some {x y : ℤ} : int32 x = some y ↔ -2 ^ 31 ≤ x ∧ x < 2 ^ 31 ∧ y = x := by
  unfold int32
  split
  · next hx =>
      rw [Option.some.injEq]
      exact ⟨fun h => ⟨hx.1, hx.2, h.symm⟩, fun h => h.2.2.symm⟩
  · next hx =>
      simp only [reduceCtorEq, false_iff]
      exact fun h => hx ⟨h.1, h.2.1⟩

namespace OrderQ

/-! ### `remove_order` -/

variable {q q' : OrderQ} {n : Ptr}

theorem endsMeet_of_linked {as : List Ptr} (hl : Linked q.heap q.head q.tail as) (hne : as ≠ []) :
    q.endsMeet = true := by
  have hhead : (q.head.bind q.heap).any (fun nd => nd.prev.isNone) = true := by
    obtain ⟨a, as', rfl⟩ := List.exists_cons_of_ne_nil hne
    have hsplit : Linked q.heap q.head q.tail ([] ++ a :: as') := hl
    obtain ⟨nd, hnd, hlinks⟩ := Option.map_eq_some_iff.mp hsplit.links
    have hprev : nd.prev = none := congrArg Prod.fst hlinks
    have hat : q.head.bind q.heap = some nd := by rw [hl.head_eq]; exact hnd
    rw [hat]
    simp [hprev]
  have htail : (q.tail.bind q.heap).any (fun nd => nd.next.isNone) = true := by
    obtain ⟨init, a, rfl⟩ := (List.eq_nil_or_concat' as).resolve_left hne
    obtain ⟨nd, hnd, hlinks⟩ := Option.map_eq_some_iff.mp hl.links
    have hnext : nd.next = none := congrArg Prod.snd hlinks
    have hat : q.tail.bind q.heap = some nd := by
      rw [hl.tail_eq, List.getLast?_concat]
      exact hnd
    rw [hat]
    simp [hnext]
  unfold endsMeet
  rw [hhead, htail]
  rfl

/-- What the four cases have in common: the node is linked out, and nothing else is written. -/
theorem unlink_linked {as bs : List Ptr} (hl : Linked q.heap q.head q.tail (as ++ n :: bs)) :
    ∃ r, q.unlink n as.getLast? bs.head? = some r ∧ Linked r.1 r.2.1 r.2.2 (as ++ bs) ∧
      ∀ a, val r.1 a = val q.heap a := by
  have hnodup := hl.nodup
  rcases List.eq_nil_or_concat' as with rfl | ⟨as, b, rfl⟩ <;> rcases bs with _ | ⟨c, bs⟩
  case inl.nil =>
    have hhead : q.head = some n := hl.head_eq
    have htail : q.tail = some n := hl.tail_eq
    refine ⟨(q.heap, none, none), ?_, linked_nil _, fun _ => rfl⟩
    rw [unlink, if_pos (hhead.trans htail.symm), if_pos hhead]
  case inl.cons =>
    -- the head
    have hhead : q.head = some n := hl.head_eq
    have htail : q.tail = (c :: bs).getLast? := by
      rw [hl.tail_eq, List.nil_append, List.getLast?_cons_cons]
    have hne : q.head ≠ q.tail := by
      rw [hhead, htail]
      intro heq
      exact (List.nodup_cons.mp hnodup).1 (List.mem_of_getLast? heq.symm)
    have hc : LinkedList.links q.heap c = some (some n, bs.head?) :=
      (show Linked q.heap q.head q.tail ([n] ++ c :: bs) from hl).links
    obtain ⟨heap, hset⟩ := exists_modify (f := fun nd => { nd with prev := none }) hc
    refine ⟨(heap, some c, q.tail), ?_, ?_, fun a => val_setPrev hset⟩
    · rw [unlink, if_neg hne, if_pos hhead]
      exact congrArg (Option.map fun heap => (heap, some c, q.tail)) hset
    · rw [htail]
      refine hl.unlink ?_ ?_ ?_
      · rintro b ⟨⟩
      · rintro b ⟨⟩
        rw [links_setPrev hset, if_pos rfl]
        rfl
      · intro b _ _ hb
        have hbc : b ≠ c := fun h => hb (h ▸ rfl)
        rw [links_setPrev hset, if_neg hbc]
  case inr.nil =>
    -- the tail
    have htail : q.tail = some n := by rw [hl.tail_eq, List.getLast?_concat]
    have hhead : q.head = (as ++ [b]).head? := by
      rw [hl.head_eq]
      cases as <;> rfl
    have hnot : n ∉ as ++ [b] := fun hmem =>
      (List.nodup_append.mp hnodup).2.2 n hmem n (List.mem_singleton_self n) rfl
    have hheadn : q.head ≠ some n := by
      rw [hhead]
      exact fun heq => hnot (List.mem_of_mem_head? heq)
    have hlist : as ++ [b] ++ [n] = as ++ b :: [n] := List.append_assoc _ _ _
    have hb : LinkedList.links q.heap b = some (as.getLast?, some n) := (hlist ▸ hl).links
    obtain ⟨heap, hset⟩ := exists_modify (f := fun nd => { nd with next := none }) hb
    refine ⟨(heap, q.head, some b), ?_, ?_, fun a => val_setNext hset⟩
    · rw [unlink, if_neg (htail ▸ hheadn), if_neg hheadn, if_pos htail, List.getLast?_concat]
      exact congrArg (Option.map fun heap => (heap, q.head, some b)) hset
    · have hlinked := hl.unlink (g := heap) ?_ ?_ ?_
      · rw [List.append_nil] at hlinked ⊢
        rwa [← hhead, List.getLast?_concat] at hlinked
      · rintro b' hb'
        rw [List.getLast?_concat] at hb'
        cases hb'
        rw [links_setNext hset, if_pos rfl]
        rfl
      · rintro b' ⟨⟩
      · intro b' _ hb' _
        rw [List.getLast?_concat] at hb'
        have hbb : b' ≠ b := fun h => hb' (h ▸ rfl)
        rw [links_setNext hset, if_neg hbb]
  case inr.cons =>
    -- between `b` and `c`
    have hlist : as ++ [b] ++ n :: c :: bs = as ++ b :: n :: c :: bs := List.append_assoc _ _ _
    have hlist' : as ++ [b] ++ n :: c :: bs = (as ++ [b, n]) ++ c :: bs := by simp
    have hhead : q.head = (as ++ [b]).head? := by
      rw [hl.head_eq]
      cases as <;> rfl
    have htail : q.tail = (c :: bs).getLast? := by
      rw [hl.tail_eq, List.getLast?_append, List.getLast?_cons_cons]
      cases hlast : (c :: bs).getLast?
      · simp at hlast
      · rfl
    obtain ⟨-, hright, hdisj⟩ := List.nodup_append.mp hnodup
    have hnc : n ∉ c :: bs := (List.nodup_cons.mp hright).1
    have hne : q.head ≠ q.tail := by
      rw [hhead, htail]
      intro heq
      obtain ⟨x, hx⟩ : ∃ x, (as ++ [b]).head? = some x := by cases as <;> exact ⟨_, rfl⟩
      have hx' : x ∈ c :: bs := List.mem_of_getLast? (heq ▸ hx)
      exact hdisj x (List.mem_of_mem_head? hx) x (List.mem_cons_of_mem n hx') rfl
    have hheadn : q.head ≠ some n := by
      rw [hhead]
      exact fun heq => hdisj n (List.mem_of_mem_head? heq) n List.mem_cons_self rfl
    have htailn : q.tail ≠ some n := by
      rw [htail]
      exact fun heq => hnc (List.mem_of_getLast? heq)
    have hbc : c ≠ b := fun heq =>
      hdisj b (List.mem_append_right as (List.mem_singleton_self b)) c (by simp) heq.symm
    have hb : LinkedList.links q.heap b = some (as.getLast?, some n) := (hlist ▸ hl).links
    have hc : LinkedList.links q.heap c = some (some n, bs.head?) := by
      have hlinks := (hlist' ▸ hl).links
      rwa [show (as ++ [b, n]).getLast? = some n by simp] at hlinks
    obtain ⟨heap₁, hset₁⟩ := exists_modify (f := fun nd => { nd with next := some c }) hb
    have hlinks₁ : ∀ x, LinkedList.links heap₁ x =
        if x = b then (LinkedList.links q.heap b).map fun l => (l.1, some c)
        else LinkedList.links q.heap x := fun x => links_setNext hset₁
    have hc₁ : LinkedList.links heap₁ c = some (some n, bs.head?) := by
      rw [hlinks₁, if_neg hbc, hc]
    obtain ⟨heap₂, hset₂⟩ := exists_modify (f := fun nd => { nd with prev := some b }) hc₁
    have hlinks₂ : ∀ x, LinkedList.links heap₂ x =
        if x = c then (LinkedList.links heap₁ c).map fun l => (some b, l.2)
        else LinkedList.links heap₁ x := fun x => links_setPrev hset₂
    refine ⟨(heap₂, q.head, q.tail), ?_, ?_, fun a => ?_⟩
    · rw [unlink, if_neg hne, if_neg hheadn, if_neg htailn, List.getLast?_concat]
      change (setNext q.heap b (some c)).bind _ = _
      rw [setNext, hset₁]
      exact congrArg (Option.map fun heap => (heap, q.head, q.tail)) hset₂
    · have hlinked := hl.unlink (g := heap₂) ?_ ?_ ?_
      · rwa [show (as ++ [b] ++ c :: bs).head? = q.head by rw [hhead]; cases as <;> rfl,
          show (as ++ [b] ++ c :: bs).getLast? = q.tail by
            rw [htail, List.getLast?_append]
            cases hlast : (c :: bs).getLast?
            · simp at hlast
            · rfl] at hlinked
      · intro x hx
        rw [List.getLast?_concat] at hx
        cases hx
        rw [hlinks₂, if_neg hbc.symm, hlinks₁, if_pos rfl]
        rfl
      · rintro x ⟨⟩
        rw [hlinks₂, if_pos rfl, hlinks₁, if_neg hbc, List.getLast?_concat]
      · intro x _ hxb hxc
        rw [List.getLast?_concat] at hxb
        have hxb' : x ≠ b := fun h => hxb (h ▸ rfl)
        have hxc' : x ≠ c := fun h => hxc (h ▸ rfl)
        rw [hlinks₂, if_neg hxc', hlinks₁, if_neg hxb']
    · exact (val_setPrev hset₂).trans (val_setNext hset₁)

/-- `remove_order` on a list: a counter apart, it always goes through. -/
theorem removeOrder_linked {as bs : List Ptr} {o : Obj}
    (hl : Linked q.heap q.head q.tail (as ++ n :: bs)) (ho : val q.heap n = some o)
    (hdel : o.deleted = false) :
    ∃ heap head tail,
      q.removeOrder n =
        (if o.order.isSim then some q.sizeOfBookCnt else int32 (q.sizeOfBookCnt - 1)).map
          (fun cnt => { q with heap := heap, head := head, tail := tail, sizeOfBookCnt := cnt }) ∧
      Linked heap head tail (as ++ bs) ∧
      ∀ a, val heap a = if a = n then none else val q.heap a := by
  obtain ⟨nd, hnd, hval⟩ := Option.map_eq_some_iff.mp ho
  obtain ⟨r, hunlink, hlinked, hvals⟩ := unlink_linked hl
  have hlinks : (nd.prev, nd.next) = (as.getLast?, bs.head?) := by
    have h := hl.links
    rw [LinkedList.links, hnd] at h
    exact Option.some.inj h
  have hends : q.endsMeet = true := endsMeet_of_linked hl (by simp)
  have hnot : n ∉ as ++ bs := (List.nodup_cons.mp (List.nodup_middle.mp hl.nodup)).1
  refine ⟨Function.update r.1 n none, r.2.1, r.2.2, ?_, ?_, ?_⟩
  · obtain ⟨hprev, hnext⟩ := Prod.mk.inj hlinks
    rw [← hprev, ← hnext] at hunlink
    subst hval
    rw [removeOrder, hnd, Option.bind_some, if_neg (by simp [hdel, hends]), hunlink,
      Option.bind_some]
  · refine hlinked.congr fun a ha => ?_
    have han : a ≠ n := fun h => hnot (h ▸ ha)
    rw [links_update, if_neg han]
  · intro a
    rw [val_update, hvals]
    rfl

/-! ### Representation -/

/-- The orders of a queue from head to tail, each with its pointer. -/
structure Represents (q : OrderQ) (ns : List (Ptr × Order)) : Prop where
  linked : Linked q.heap q.head q.tail (ns.map Prod.fst)
  objs : ∀ x ∈ ns, val q.heap x.1 = some ⟨x.2, false, false, false⟩
  owned : ∀ a, val q.heap a ≠ none → a ∈ ns.map Prod.fst
  ids : (ns.map fun x => x.2.id).Nodup
  index : ∀ i n, q.qordermap.lookup i = some n ↔ ∃ o, (n, o) ∈ ns ∧ o.id = i
  sizes : ∀ x ∈ ns, 0 < x.2.sz
  ordersInBook_eq : q.ordersInBook = OB.ordersInBook (ns.map Prod.snd)
  sizeOfBookCnt_eq : q.sizeOfBookCnt = (reals (ns.map Prod.snd)).length
  fits : q.ordersInBook < 2 ^ 31 ∧ q.sizeOfBookCnt < 2 ^ 31

theorem represents_new : Represents {} [] where
  linked := linked_nil _
  objs := by simp
  owned := fun _ h => absurd rfl h
  ids := List.nodup_nil
  index := by simp
  sizes := by simp
  ordersInBook_eq := rfl
  sizeOfBookCnt_eq := rfl
  fits := by decide

theorem Represents.val_at {l r : List (Ptr × Order)} {o : Order}
    (hq : Represents q (l ++ (n, o) :: r)) : val q.heap n = some ⟨o, false, false, false⟩ :=
  hq.objs (n, o) (by simp)

theorem Represents.linked_mid {l r : List (Ptr × Order)} {o : Order}
    (hq : Represents q (l ++ (n, o) :: r)) :
    Linked q.heap q.head q.tail (l.map Prod.fst ++ n :: r.map Prod.fst) := by
  have hlinked := hq.linked
  rwa [List.map_append] at hlinked

/-- A pointer stands for one order. -/
theorem Represents.pointer_ne {l r : List (Ptr × Order)} {o : Order}
    (hq : Represents q (l ++ (n, o) :: r)) {x : Ptr × Order} (hx : x ∈ l ++ r) : x.1 ≠ n := by
  have hnot := (List.nodup_cons.mp (List.nodup_middle.mp hq.linked_mid.nodup)).1
  rw [← List.map_append] at hnot
  exact fun heq => hnot (heq ▸ List.mem_map_of_mem hx)

theorem Represents.id_ne {l r : List (Ptr × Order)} {o : Order}
    (hq : Represents q (l ++ (n, o) :: r)) {x : Ptr × Order} (hx : x ∈ l ++ r) :
    x.2.id ≠ o.id := by
  have hids := hq.ids
  rw [List.map_append] at hids
  have hnot := (List.nodup_cons.mp (List.nodup_middle.mp hids)).1
  rw [← List.map_append] at hnot
  intro heq
  apply hnot
  change o.id ∈ _
  rw [← heq]
  exact List.mem_map_of_mem (f := fun x : Ptr × Order => x.2.id) hx

/-! ### `append` -/

/-- The new order is linked in after the last, and no other value is written. -/
theorem linkLast_linked {as : List Ptr} {o : Order} {heap : Heap Ptr Obj} {head : Option Ptr}
    (hl : Linked q.heap q.head q.tail as) (hn : q.heap n = none)
    (h : q.linkLast n o = some (heap, head)) :
    Linked heap head (some n) (as ++ [n]) ∧
      ∀ a, val heap a = if a = n then some ⟨o, false, false, false⟩ else val q.heap a := by
  have hnot : n ∉ as := by
    intro hmem
    obtain ⟨nd, hnd⟩ := hl.exists_node hmem
    rw [hn] at hnd
    cases hnd
  unfold linkLast at h
  split at h
  · next hhead =>
    have has : as = [] := List.head?_eq_none_iff.mp (hl.head_eq.symm.trans hhead)
    subst has
    split at h
    · cases h
      refine ⟨?_, fun a => val_update _ _ _ _⟩
      refine Linked.push (linked_nil q.heap) hnot ?_ (by simp) (by simp)
      rw [links_update, if_pos rfl]
      rfl
    · cases h
  · next head' hhead =>
    obtain ⟨tail, htail, h⟩ := Option.bind_eq_some_iff.mp h
    obtain ⟨heap', hset, heq⟩ := Option.map_eq_some_iff.mp h
    cases heq
    have hlast : as.getLast? = some tail := hl.tail_eq.symm.trans htail
    have hmem : tail ∈ as := List.mem_of_getLast? hlast
    have hnt : n ≠ tail := fun heq => hnot (heq ▸ hmem)
    constructor
    · have hpush := hl.push (g := heap) hnot ?_ ?_ ?_
      · have hheads : (as ++ [n]).head? = some head' := by
          rw [List.head?_append, ← hl.head_eq, hhead]
          rfl
        rwa [hheads] at hpush
      · rw [links_setNext hset, if_neg hnt, links_update, if_pos rfl, hlast]
        rfl
      · intro b hb
        rw [hlast] at hb
        cases hb
        rw [links_setNext hset, if_pos rfl, links_update, if_neg hnt.symm]
      · intro b hb hbt
        have hbt' : b ≠ tail := fun heq => hbt (heq ▸ hlast)
        have hbn : b ≠ n := fun heq => hnot (heq ▸ hb)
        rw [links_setNext hset, if_neg hbt', links_update, if_neg hbn]
    · intro a
      rw [val_setNext hset, val_update]
      rfl

/-- **Append.**  The order becomes the last. -/
theorem append_represents {ns : List (Ptr × Order)} {o : Order} (hq : Represents q ns)
    (hid : ∀ x ∈ ns, x.2.id ≠ o.id) (h : q.append n o = some q') :
    Represents q' (ns ++ [(n, o)]) := by
  unfold append at h
  split at h
  · cases h
  · next hguard =>
    obtain ⟨hfresh, hsz⟩ := not_or.mp hguard
    have hn : q.heap n = none := by simpa using hfresh
    obtain ⟨⟨heap, head⟩, hlink, h⟩ := Option.bind_eq_some_iff.mp h
    obtain ⟨hlinked, hvals⟩ := linkLast_linked hq.linked hn hlink
    have hnot : ∀ x ∈ ns, x.1 ≠ n := by
      intro x hx heq
      obtain ⟨nd, hnd⟩ := hq.linked.exists_node (List.mem_map_of_mem hx)
      rw [heq, hn] at hnd
      cases hnd
    dsimp only at h
    split at h
    · cases h
    · have hrep : ∀ sz cnt, sz = q.ordersInBook + (if o.isSim then 0 else o.sz) →
          cnt = q.sizeOfBookCnt + (if o.isSim then 0 else 1) → sz < 2 ^ 31 → cnt < 2 ^ 31 →
          Represents
            { q with
              heap := heap, head := head, tail := some n
              qordermap := q.qordermap.insert o.id n, ordersInBook := sz, sizeOfBookCnt := cnt }
            (ns ++ [(n, o)]) := by
        intro sz cnt hsum hcnt hlt hlt'
        refine ⟨?_, ?_, ?_, ?_, ?_, ?_, ?_, ?_, hlt, hlt'⟩
        · rw [List.map_append]
          exact hlinked
        · intro x hx
          rcases List.mem_append.mp hx with hx | hx
          · exact (hvals x.1).trans ((if_neg (hnot x hx)).trans (hq.objs x hx))
          · cases List.mem_singleton.mp hx
            exact (hvals n).trans (if_pos rfl)
        · intro a ha
          rw [List.map_append]
          by_cases han : a = n
          · exact List.mem_append_right _ (by simp [han])
          · have hold : val heap a = val q.heap a := (hvals a).trans (if_neg han)
            exact List.mem_append_left _ (hq.owned a (by rwa [← hold]))
        · rw [List.map_append]
          refine List.Nodup.append hq.ids (List.nodup_singleton _) ?_
          simpa [List.disjoint_singleton] using fun m o' hmem => hid (m, o') hmem
        · intro i m
          by_cases hi : i = o.id
          · subst hi
            rw [AList.lookup_insert]
            constructor
            · intro heq
              cases heq
              exact ⟨o, by simp, rfl⟩
            · rintro ⟨o', hmem, ho'⟩
              rcases List.mem_append.mp hmem with hmem | hmem
              · exact absurd ho' (hid _ hmem)
              · cases List.mem_singleton.mp hmem
                rfl
          · rw [AList.lookup_insert_ne hi, hq.index]
            constructor
            · rintro ⟨o', hmem, ho'⟩
              exact ⟨o', List.mem_append_left _ hmem, ho'⟩
            · rintro ⟨o', hmem, ho'⟩
              rcases List.mem_append.mp hmem with hmem | hmem
              · exact ⟨o', hmem, ho'⟩
              · cases List.mem_singleton.mp hmem
                exact absurd ho'.symm hi
        · intro x hx
          rcases List.mem_append.mp hx with hx | hx
          · exact hq.sizes x hx
          · cases List.mem_singleton.mp hx
            exact lt_of_not_ge hsz
        · rw [List.map_append, ordersInBook_append, ← hq.ordersInBook_eq]
          change sz = _ + OB.ordersInBook [o]
          rw [ordersInBook_cons, ordersInBook_nil, add_zero]
          exact hsum
        · rw [List.map_append, reals_append, List.length_append, Nat.cast_add,
            ← hq.sizeOfBookCnt_eq]
          change cnt = _ + ((reals [o]).length : ℤ)
          rw [reals_cons_length, reals_nil, List.length_nil, Nat.cast_zero, add_zero]
          exact hcnt
      split at h
      · next hsim =>
        cases h
        exact hrep _ _ (by simp [hsim]) (by simp [hsim]) hq.fits.1 hq.fits.2
      · next hsim =>
        obtain ⟨sz, hsum, h⟩ := Option.bind_eq_some_iff.mp h
        obtain ⟨cnt, hcnt, heq⟩ := Option.map_eq_some_iff.mp h
        obtain ⟨-, hlt, rfl⟩ := int32_eq_some.mp hsum
        obtain ⟨-, hlt', rfl⟩ := int32_eq_some.mp hcnt
        cases heq
        exact hrep _ _ (by simp [hsim]) (by simp [hsim]) hlt hlt'

/-! ### Taking an order out, and resizing it -/

/-- `m` is `q` but for what the object at `n` holds. -/
structure Rewrites (q m : OrderQ) (n : Ptr) : Prop where
  head_eq : m.head = q.head
  tail_eq : m.tail = q.tail
  links_eq : ∀ a, LinkedList.links m.heap a = LinkedList.links q.heap a
  val_eq : ∀ a ≠ n, val m.heap a = val q.heap a
  cnt_eq : m.sizeOfBookCnt = q.sizeOfBookCnt

theorem Represents.rewrites_linked {m : OrderQ} {ns : List (Ptr × Order)} (hq : Represents q ns)
    (hw : Rewrites q m n) : Linked m.heap m.head m.tail (ns.map Prod.fst) := by
  rw [hw.head_eq, hw.tail_eq]
  exact hq.linked.congr fun a _ => hw.links_eq a

/-- An order that is off the index and out of `orders_in_book` leaves the list. -/
theorem Represents.remove {m : OrderQ} {l r : List (Ptr × Order)} {o : Order} {obj : Obj}
    (hq : Represents q (l ++ (n, o) :: r)) (hw : Rewrites q m n)
    (hobj : val m.heap n = some obj) (hdel : obj.deleted = false)
    (hsim : obj.order.isSim = o.isSim) (hmap : m.qordermap = q.qordermap.erase o.id)
    (htotal : m.ordersInBook = q.ordersInBook - if o.isSim then 0 else o.sz) :
    ∃ q', m.removeOrder n = some q' ∧ Represents q' (l ++ r) := by
  have hlinked := hq.rewrites_linked hw
  rw [List.map_append] at hlinked
  obtain ⟨heap, head, tail, hremove, hlinked', hvals⟩ := removeOrder_linked hlinked hobj hdel
  have hcount : q.sizeOfBookCnt =
      (if o.isSim then 0 else 1) + ((reals ((l ++ r).map Prod.snd)).length : ℤ) := by
    rw [hq.sizeOfBookCnt_eq, List.map_append, List.map_append, List.map_cons, reals_append,
      reals_append, List.length_append, List.length_append, Nat.cast_add, Nat.cast_add,
      reals_cons_length]
    ring
  have hsum : q.ordersInBook =
      (if o.isSim then 0 else o.sz) + OB.ordersInBook ((l ++ r).map Prod.snd) := by
    rw [hq.ordersInBook_eq, List.map_append, List.map_append, List.map_cons,
      ordersInBook_append, ordersInBook_append, ordersInBook_cons]
    ring
  have hfits := hq.fits
  have hcnt : (if obj.order.isSim then some m.sizeOfBookCnt else int32 (m.sizeOfBookCnt - 1)) =
      some (((reals ((l ++ r).map Prod.snd)).length : ℤ)) := by
    rw [hsim, hw.cnt_eq]
    cases ho : o.isSim
    · rw [if_neg (by simp), int32_eq_some]
      rw [ho, if_neg (by simp)] at hcount
      omega
    · rw [if_pos rfl, hcount, ho, if_pos rfl, zero_add]
  have hnonneg : 0 ≤ (if o.isSim then 0 else o.sz) := by
    have hsz : 0 < o.sz := hq.sizes (n, o) (by simp)
    split <;> omega
  refine ⟨_, (hremove.trans (by rw [hcnt, Option.map_some])), ?_⟩
  refine ⟨?_, ?_, ?_, ?_, ?_, ?_, ?_, rfl, ?_, ?_⟩
  · change Linked heap head tail ((l ++ r).map Prod.fst)
    rw [List.map_append]
    exact hlinked'
  · intro x hx
    have hxn := hq.pointer_ne hx
    have hmem : x ∈ l ++ (n, o) :: r := by
      rcases List.mem_append.mp hx with hx | hx
      · exact List.mem_append_left _ hx
      · exact List.mem_append_right _ (List.mem_cons_of_mem _ hx)
    exact ((hvals _).trans (if_neg hxn)).trans ((hw.val_eq _ hxn).trans (hq.objs x hmem))
  · intro a ha
    have han : a ≠ n := fun h => ha ((hvals a).trans (if_pos h))
    have hold : val heap a = val q.heap a :=
      ((hvals a).trans (if_neg han)).trans (hw.val_eq a han)
    have hmem := hq.owned a (by rwa [← hold])
    rw [List.map_append, List.map_cons] at hmem
    rw [List.map_append]
    rcases List.mem_append.mp hmem with hmem | hmem
    · exact List.mem_append_left _ hmem
    · exact List.mem_append_right _ ((List.mem_cons.mp hmem).resolve_left han)
  · have hids := hq.ids
    rw [List.map_append, List.map_cons] at hids
    rw [List.map_append]
    exact (List.nodup_middle.mp hids).of_cons
  · intro i a
    change m.qordermap.lookup i = some a ↔ _
    rw [hmap]
    by_cases hi : i = o.id
    · subst hi
      rw [AList.lookup_erase]
      constructor
      · intro heq
        cases heq
      · rintro ⟨o', hmem, ho'⟩
        exact absurd ho' (hq.id_ne hmem)
    · rw [AList.lookup_erase_ne hi, hq.index]
      refine exists_congr fun o' => and_congr_left fun ho' => ?_
      have hne : (a, o') ≠ (n, o) := by
        rintro ⟨⟩
        exact hi ho'.symm
      simp [hne]
  · intro x hx
    apply hq.sizes
    rcases List.mem_append.mp hx with hx | hx
    · exact List.mem_append_left _ hx
    · exact List.mem_append_right _ (List.mem_cons_of_mem _ hx)
  · change m.ordersInBook = _
    rw [htotal, hsum]
    ring
  · change m.ordersInBook < _
    rw [htotal]
    omega
  · change ((reals ((l ++ r).map Prod.snd)).length : ℤ) < _
    have hone : (0 : ℤ) ≤ if o.isSim then 0 else 1 := by split <;> decide
    omega

/-- An order that has another size keeps its place. -/
theorem Represents.resize {m : OrderQ} {l r : List (Ptr × Order)} {o : Order} {sz : ℤ}
    (hq : Represents q (l ++ (n, o) :: r)) (hw : Rewrites q m n)
    (hobj : val m.heap n = some ⟨{ o with sz := sz }, false, false, false⟩) (hsz : 0 < sz)
    (hmap : m.qordermap = q.qordermap)
    (htotal : m.ordersInBook = q.ordersInBook - if o.isSim then 0 else o.sz - sz)
    (hfits : m.ordersInBook < 2 ^ 31) :
    Represents m (l ++ (n, { o with sz := sz }) :: r) := by
  have hmem : ∀ x ∈ l ++ (n, { o with sz := sz }) :: r,
      x = (n, { o with sz := sz }) ∨ x ∈ l ++ r := by
    intro x hx
    rcases List.mem_append.mp hx with hx | hx
    · exact Or.inr (List.mem_append_left _ hx)
    · rcases List.mem_cons.mp hx with rfl | hx
      · exact Or.inl rfl
      · exact Or.inr (List.mem_append_right _ hx)
  have hold : ∀ x ∈ l ++ r, x ∈ l ++ (n, o) :: r := by
    intro x hx
    rcases List.mem_append.mp hx with hx | hx
    · exact List.mem_append_left _ hx
    · exact List.mem_append_right _ (List.mem_cons_of_mem _ hx)
  refine ⟨?_, ?_, ?_, ?_, ?_, ?_, ?_, ?_, hfits, ?_⟩
  · have hlinked := hq.rewrites_linked hw
    rw [List.map_append] at hlinked ⊢
    exact hlinked
  · intro x hx
    rcases hmem x hx with rfl | hx
    · exact hobj
    · exact (hw.val_eq _ (hq.pointer_ne hx)).trans (hq.objs x (hold x hx))
  · intro a ha
    have hmap : (l ++ (n, { o with sz := sz }) :: r).map Prod.fst =
        (l ++ (n, o) :: r).map Prod.fst := by simp
    rw [hmap]
    by_cases han : a = n
    · simp [han]
    · exact hq.owned a (by rwa [← hw.val_eq a han])
  · have hids := hq.ids
    rw [List.map_append] at hids ⊢
    exact hids
  · intro i a
    rw [hmap, hq.index]
    constructor
    · rintro ⟨o', ho', hid⟩
      rcases List.mem_append.mp ho' with ho' | ho'
      · exact ⟨o', List.mem_append_left _ ho', hid⟩
      · rcases List.mem_cons.mp ho' with heq | ho'
        · cases heq
          exact ⟨{ o with sz := sz }, by simp, hid⟩
        · exact ⟨o', List.mem_append_right _ (List.mem_cons_of_mem _ ho'), hid⟩
    · rintro ⟨o', ho', hid⟩
      rcases hmem _ ho' with heq | ho'
      · cases heq
        exact ⟨o, by simp, hid⟩
      · exact ⟨o', hold _ ho', hid⟩
  · intro x hx
    rcases hmem x hx with rfl | hx
    · exact hsz
    · exact hq.sizes x (hold x hx)
  · rw [htotal, hq.ordersInBook_eq, List.map_append, List.map_append, List.map_cons,
      List.map_cons, ordersInBook_append, ordersInBook_append, ordersInBook_cons,
      ordersInBook_cons]
    change _ = _ + ((if o.isSim then 0 else sz) + _)
    split <;> ring
  · rw [hw.cnt_eq, hq.sizeOfBookCnt_eq, List.map_append, List.map_append, List.map_cons,
      List.map_cons, reals_append, reals_append, List.length_append, List.length_append,
      Nat.cast_add, Nat.cast_add, reals_cons_length, reals_cons_length]
    rfl
  · rw [hw.cnt_eq]
    exact hq.fits.2

/-! ### `canc_notify` -/

/-- An order that rests has no flag set. -/
abbrev resting (o : Order) : Obj := ⟨o, false, false, false⟩

/-- What `Order::canc_notify` makes of an order that rests. -/
theorem obj_cancNotify {o : Order} {dispSz sz : ℤ} {modtyp : Mt} {notes : List Note}
    (hdisp : 0 ≤ dispSz) (hsz : 0 < o.sz) (hleft : leftSz dispSz modtyp = some sz)
    (hack : o.cancAck sz = some notes) :
    ∃ obj, (resting o).cancNotify dispSz modtyp = some (obj, o.sz - sz, notes) ∧
      obj.order = { o with sz := sz } ∧ obj.deleted = false ∧
      (¬ (sz = 0 ∨ modtyp = .cancd) → obj = resting { o with sz := sz }) := by
  have hsz0 : 0 ≤ sz := by
    rcases leftSz_eq_some.mp hleft with ⟨-, rfl⟩ | ⟨-, hpos, rfl⟩
    · exact le_refl _
    · exact hpos.le
  refine ⟨⟨{ o with sz := sz }, false,
    false || decide (sz ≤ 0 ∧ dispSz ≤ 0 ∨ modtyp = .cancd), false⟩, ?_, rfl, rfl, ?_⟩
  · unfold Obj.cancNotify
    rw [if_neg (by simp [hsz]), hleft, Option.bind_some, hack, Option.bind_some,
      if_neg (not_or.mpr ⟨not_lt.mpr hsz0, not_lt.mpr hdisp⟩)]
  · intro hstays
    obtain ⟨hzero, hcancd⟩ := not_or.mp hstays
    have hnot : ¬ (sz ≤ 0 ∧ dispSz ≤ 0 ∨ modtyp = .cancd) := by
      rintro (⟨hle, -⟩ | hm)
      · exact hzero (le_antisymm hle hsz0)
      · exact hcancd hm
    simp [hnot]

theorem obj_cancNotify_parts {o : Order} {dispSz : ℤ} {modtyp : Mt} {r : Obj × ℤ × List Note}
    (h : (resting o).cancNotify dispSz modtyp = some r) :
    0 ≤ dispSz ∧ 0 < o.sz ∧ ∃ sz, leftSz dispSz modtyp = some sz ∧ o.cancAck sz = some r.2.2 ∧
      r.2.1 = o.sz - sz := by
  unfold Obj.cancNotify at h
  split at h
  · cases h
  · next hguard =>
    obtain ⟨sz, hleft, h⟩ := Option.bind_eq_some_iff.mp h
    obtain ⟨ack, hack, h⟩ := Option.bind_eq_some_iff.mp h
    split at h
    · cases h
    · next hneg =>
      cases h
      exact ⟨not_lt.mp (not_or.mp hneg).2, not_le.mp (not_or.mp hguard).1, sz, hleft, hack, rfl⟩

/-- `canc_notify` on a list, where its assertions hold and the sizes fit an `int`: the order is
    resized in its place, or leaves the list. -/
theorem exists_cancNotify {l r : List (Ptr × Order)} {o : Order} {dispSz : ℤ} {modtyp : Mt}
    {left : Option Order} {notes : List Note} (hq : Represents q (l ++ (n, o) :: r))
    (hcanc : o.cancNotify dispSz modtyp = some (left, notes))
    (hfits : o.isSim = true ∨
      ∀ sz, leftSz dispSz modtyp = some sz → q.ordersInBook - (o.sz - sz) < 2 ^ 31) :
    ∃ q', q.cancNotify n dispSz modtyp = some (q', notes) ∧
      Represents q' (l ++ (left.map fun o' => (n, o')).toList ++ r) := by
  obtain ⟨nd, hnd, hval⟩ := Option.map_eq_some_iff.mp hq.val_at
  obtain ⟨hdisp, hsz, sz, hleft, hack, hlist⟩ := cancNotify_eq_some.mp hcanc
  obtain ⟨obj, hobj, horder, hdel, hrest⟩ := obj_cancNotify hdisp hsz hleft hack
  have hbounds : 0 ≤ sz ∧ sz ≤ dispSz ∧ (modtyp = .canc ∨ modtyp = .cancd) ∧
      (modtyp = .cancd → sz = 0) := by
    rcases leftSz_eq_some.mp hleft with ⟨hm, rfl⟩ | ⟨hm, hpos, rfl⟩
    · exact ⟨le_refl _, hdisp, Or.inr hm, fun _ => rfl⟩
    · exact ⟨hpos.le, le_refl _, Or.inl hm, fun h => by rw [hm] at h; cases h⟩
  obtain ⟨hsz0, hle, hmod, hcancd⟩ := hbounds
  -- the counter
  have hothers : 0 ≤ q.ordersInBook - if o.isSim then 0 else o.sz := by
    rw [hq.ordersInBook_eq, List.map_append, List.map_cons, ordersInBook_append,
      ordersInBook_cons, add_left_comm, add_sub_cancel_left, ← ordersInBook_append,
      ← List.map_append]
    apply ordersInBook_nonneg
    intro o' ho'
    obtain ⟨x, hx, rfl⟩ := List.mem_map.mp ho'
    apply hq.sizes x
    rcases List.mem_append.mp hx with hx | hx
    · exact List.mem_append_left _ hx
    · exact List.mem_append_right _ (List.mem_cons_of_mem _ hx)
  obtain ⟨total, htotal, hsum, hlt, hnonneg⟩ : ∃ total,
      (if o.isSim then some q.ordersInBook else int32 (q.ordersInBook - (o.sz - sz))) =
        some total ∧ total = q.ordersInBook - (if o.isSim then 0 else o.sz - sz) ∧
        total < 2 ^ 31 ∧ 0 ≤ total := by
    cases hsim : o.isSim
    · rw [hsim, if_neg (by simp)] at hothers
      have hfits' := hfits.resolve_left (by simp [hsim]) sz hleft
      refine ⟨q.ordersInBook - (o.sz - sz), ?_, by simp, by omega, by omega⟩
      rw [if_neg (by simp), int32_eq_some]
      exact ⟨by omega, by omega, rfl⟩
    · rw [hsim, if_pos rfl, sub_zero] at hothers
      exact ⟨q.ordersInBook, by simp, by simp, hq.fits.1, hothers⟩
  obtain ⟨heap, hset⟩ : ∃ heap, setVal q.heap n obj = some heap :=
    exists_modify hq.linked_mid.links
  have hvals : ∀ a, val heap a = if a = n then some obj else val q.heap a :=
    fun a => val_setVal hset
  have hw : ∀ map total', Rewrites q
      { q with heap := heap, qordermap := map, ordersInBook := total' } n := fun map total' =>
    ⟨rfl, rfl, fun a => links_setVal hset, fun a ha => (hvals a).trans (if_neg ha), rfl⟩
  have hrun : q.cancNotify n dispSz modtyp =
      if obj.order.sz = 0 ∨ modtyp = .cancd then
        (removeOrder
          { q with
            heap := heap
            ordersInBook := if o.isSim then total else total - max obj.order.sz 0
            qordermap := q.qordermap.erase o.id } n).map fun q => (q, notes)
      else some ({ q with heap := heap, ordersInBook := total }, notes) := by
    unfold cancNotify
    rw [hnd, Option.bind_some, hval]
    dsimp only
    rw [if_neg (by simp [hmod, hdisp]), hobj, Option.bind_some, htotal, Option.bind_some, hset,
      Option.bind_some]
    dsimp only
    rw [if_neg (by rw [horder]; exact not_or.mpr ⟨not_lt.mpr hsz0, not_lt.mpr hnonneg⟩)]
  rw [hrun, horder]
  by_cases hgone : sz = 0 ∨ modtyp = .cancd
  · have hzero : sz = 0 := hgone.elim id hcancd
    rw [if_pos hgone] at hlist
    obtain ⟨q₂, hremove, hrep⟩ := hq.remove
      (hw (q.qordermap.erase o.id) (if o.isSim then total else total - max sz 0))
      ((hvals n).trans (if_pos rfl)) hdel (by rw [horder]; rfl) rfl (by
        change (if o.isSim then total else total - max sz 0) = _
        rw [hsum, hzero, sub_zero, max_self, sub_zero, ite_self])
    refine ⟨q₂, ?_, by simpa [hlist] using hrep⟩
    rw [if_pos hgone, hremove]
    rfl
  · rw [if_neg hgone] at hlist
    refine ⟨_, if_neg hgone, ?_⟩
    have hrep := hq.resize (hw q.qordermap total)
      (((hvals n).trans (if_pos rfl)).trans (congrArg some (hrest hgone)))
      (lt_of_le_of_ne hsz0 (Ne.symm (not_or.mp hgone).1)) rfl hsum hlt
    simpa [hlist] using hrep

/-- **Cancel.**  Whatever `canc_notify` does to an order of the list, `OrderBook` does. -/
theorem cancNotify_represents {l r : List (Ptr × Order)} {o : Order} {dispSz : ℤ} {modtyp : Mt}
    {notes : List Note} (hq : Represents q (l ++ (n, o) :: r))
    (h : q.cancNotify n dispSz modtyp = some (q', notes)) :
    ∃ left : Option Order, o.cancNotify dispSz modtyp = some (left, notes) ∧
      Represents q' (l ++ (left.map fun o' => (n, o')).toList ++ r) := by
  obtain ⟨nd, hnd, hval⟩ := Option.map_eq_some_iff.mp hq.val_at
  have hrun := h
  unfold cancNotify at hrun
  rw [hnd, Option.bind_some, hval] at hrun
  dsimp only at hrun
  split at hrun
  · cases hrun
  · obtain ⟨r', hobj, hrun⟩ := Option.bind_eq_some_iff.mp hrun
    obtain ⟨total, htotal, hrun⟩ := Option.bind_eq_some_iff.mp hrun
    obtain ⟨heap, -, hrun⟩ := Option.bind_eq_some_iff.mp hrun
    obtain ⟨hdisp, hsz, sz, hleft, hack, hcanced⟩ := obj_cancNotify_parts hobj
    have hcanc := cancNotify_eq_some.mpr ⟨hdisp, hsz, sz, hleft, hack, rfl⟩
    have hfits : o.isSim = true ∨
        ∀ sz', leftSz dispSz modtyp = some sz' → q.ordersInBook - (o.sz - sz') < 2 ^ 31 := by
      split at htotal
      · next hsim => exact Or.inl hsim
      · refine Or.inr fun sz' hsz' => ?_
        rw [hleft] at hsz'
        cases hsz'
        rw [← hcanced]
        exact (int32_eq_some.mp htotal).2.1
    obtain ⟨q₂, hrun₂, hrep⟩ := exists_cancNotify hq hcanc hfits
    split at hrun
    · cases hrun
    · have hnotes : r'.2.2 = notes := by
        split at hrun
        · obtain ⟨_, -, heq⟩ := Option.map_eq_some_iff.mp hrun
          exact congrArg Prod.snd heq
        · exact congrArg Prod.snd (Option.some.inj hrun)
      rw [hnotes] at hcanc hrun₂
      cases h.symm.trans hrun₂
      exact ⟨_, hcanc, hrep⟩

/-! ### `fill_notify` -/

/-- **Fill.**  The order is filled for the size in its place, and leaves the list when nothing is
    left of it. -/
theorem fillNotify_represents {l r : List (Ptr × Order)} {o : Order} {sz dispSz px : ℤ}
    {modtyp : Mt} {tim : ℕ} {notes : List Note} (hq : Represents q (l ++ (n, o) :: r))
    (h : q.fillNotify n sz dispSz px modtyp tim = some (q', notes)) :
    ∃ o' note, o.fillNotify sz px tim = some (o', note) ∧ notes = [note] ∧
      Represents q' (if o'.sz = 0 ∨ modtyp = .execd then l ++ r else l ++ (n, o') :: r) := by
  obtain ⟨nd, hnd, hval⟩ := Option.map_eq_some_iff.mp hq.val_at
  unfold fillNotify at h
  rw [hnd, Option.bind_some, hval] at h
  dsimp only at h
  split at h
  · cases h
  · obtain ⟨⟨obj, note⟩, hobj, h⟩ := Option.bind_eq_some_iff.mp h
    obtain ⟨heap, hset, h⟩ := Option.bind_eq_some_iff.mp h
    have hvals : ∀ a, val heap a = if a = n then some obj else val q.heap a :=
      fun a => val_setVal hset
    unfold Obj.fillNotify at hobj
    split at hobj
    · obtain ⟨⟨o', note'⟩, hlist, heq⟩ := Option.map_eq_some_iff.mp hobj
      cases heq
      obtain ⟨dest, -, hsim, -, hle, rfl, -⟩ := fillNotify_eq_some.mp hlist
      have hw : ∀ map, Rewrites q { q with heap := heap, qordermap := map } n := fun map =>
        ⟨rfl, rfl, fun a => links_setVal hset, fun a ha => (hvals a).trans (if_neg ha), rfl⟩
      split at h
      · cases h
      · refine ⟨_, _, hlist, ?_⟩
        dsimp only at h
        split at h
        · next hgone =>
          obtain ⟨q'', hremove, heq⟩ := Option.map_eq_some_iff.mp h
          cases heq
          obtain ⟨q₂, hremove', hrep⟩ := hq.remove (hw _) ((hvals n).trans (if_pos rfl)) rfl
            rfl rfl (by rw [if_pos hsim, sub_zero])
          cases hremove.symm.trans hremove'
          rw [if_pos hgone]
          exact ⟨rfl, hrep⟩
        · next hstays =>
          cases h
          rw [if_neg hstays]
          have hpos : 0 < o.sz - sz :=
            lt_of_le_of_ne (sub_nonneg.mpr hle) (Ne.symm (not_or.mp hstays).1)
          refine ⟨rfl, hq.resize (hw _) ?_ hpos rfl ?_ hq.fits.1⟩
          · have hlt : sz < o.sz := sub_pos.mp hpos
            refine (hvals n).trans ((if_pos rfl).trans ?_)
            simp [hlt]
          · rw [if_pos hsim, sub_zero]
    · cases hobj

/-- A fill goes through where the list takes it. -/
theorem exists_fillNotify {l r : List (Ptr × Order)} {o o' : Order} {sz dispSz px : ℤ}
    {modtyp : Mt} {tim : ℕ} {note : Note} (hq : Represents q (l ++ (n, o) :: r))
    (hfill : o.fillNotify sz px tim = some (o', note)) (htim : tim ≠ 0)
    (hmod : modtyp = .exec ∨ modtyp = .execd) (hdisp : dispSz < 0) :
    ∃ q', q.fillNotify n sz dispSz px modtyp tim = some (q', [note]) := by
  obtain ⟨nd, hnd, hval⟩ := Option.map_eq_some_iff.mp hq.val_at
  obtain ⟨dest, -, hsim, hpos, hle, rfl, -⟩ := fillNotify_eq_some.mp hfill
  have hsz : 0 < o.sz := hq.sizes (n, o) (by simp)
  unfold fillNotify
  rw [hnd, Option.bind_some, hval]
  dsimp only
  rw [if_neg (by simp [htim, hsim, hsz, hmod, hdisp.ne]), Obj.fillNotify,
    if_pos ⟨hmod, rfl, hdisp.le⟩, hfill, Option.map_some, Option.bind_some]
  obtain ⟨heap, hset⟩ : ∃ heap, setVal q.heap n
      ⟨{ o with sz := o.sz - sz }, false, false, false || decide (o.sz - sz ≤ 0)⟩ = some heap :=
    exists_modify hq.linked_mid.links
  rw [hset, Option.bind_some]
  dsimp only
  rw [if_neg (by omega)]
  split
  · have hvals := fun a => val_setVal (b := a) hset
    obtain ⟨q₂, hremove, -⟩ := hq.remove
      (m := { q with heap := heap, qordermap := q.qordermap.erase o.id })
      ⟨rfl, rfl, fun a => links_setVal hset, fun a ha => (hvals a).trans (if_neg ha), rfl⟩
      ((hvals n).trans (if_pos rfl)) rfl rfl rfl (by rw [if_pos hsim, sub_zero])
    exact ⟨q₂, by rw [hremove]; rfl⟩
  · exact ⟨_, rfl⟩

end OrderQ

end KasparHft.OB
