import KasparHft.OrderQRepresents

/-!
# Runs of a level's queue

Every call of a queue is a step of the list it represents, made by the functions of
`OrderBook`; so after every sequence of calls that gives new orders fresh ids the pointers, the
index and the counters agree, and the orders that have survived stand in the order in which
they came.
-/

namespace KasparHft.OB

open AssocMap LinkedList Machine

namespace OrderQ

variable {q q' : OrderQ} {ns : List (Ptr × Order)} {n : Ptr}

/-! ### `canc_notify_all` -/

theorem idLe_trans {i j k : LongId} (hij : idLe i j) (hjk : idLe j k) : idLe i k := by
  unfold idLe at *
  omega

theorem idLe_total (i j : LongId) : idLe i j ∨ idLe j i := by
  unfold idLe
  omega

theorem idLe_antisymm {i j : LongId} (hij : idLe i j) (hji : idLe j i) : i = j := by
  obtain ⟨x, a⟩ := i
  obtain ⟨y, b⟩ := j
  simp only [idLe, LongId.mk.injEq] at *
  omega

theorem begin_eq_none {is : List LongId} : begin is = none ↔ is = [] := by
  cases is with
  | nil => simp [begin]
  | cons i is =>
      simp only [begin, reduceCtorEq, iff_false]
      split
      · simp
      · split <;> simp

/-- `begin` is the least key. -/
theorem begin_least {is : List LongId} {i : LongId} (h : begin is = some i) :
    i ∈ is ∧ ∀ j ∈ is, idLe i j := by
  induction is generalizing i with
  | nil => cases h
  | cons k is ih =>
      simp only [begin] at h
      have hrefl : ∀ j, idLe j j := fun j => (idLe_total j j).elim id id
      split at h
      · next hnone =>
        cases h
        rw [begin_eq_none.mp hnone]
        exact ⟨by simp, by simp [hrefl]⟩
      · next j hj =>
        obtain ⟨hmem, hleast⟩ := ih hj
        split at h
        · next hle =>
          cases h
          refine ⟨List.mem_cons_self, fun m hm => ?_⟩
          rcases List.mem_cons.mp hm with rfl | hm
          · exact hrefl _
          · exact idLe_trans hle (hleast m hm)
        · next hle =>
          cases h
          refine ⟨List.mem_cons_of_mem _ hmem, fun m hm => ?_⟩
          rcases List.mem_cons.mp hm with rfl | hm
          · exact (idLe_total _ _).resolve_left hle
          · exact hleast m hm

theorem Represents.mem_keys (hq : Represents q ns) {i : LongId} :
    i ∈ q.qordermap.keys ↔ i ∈ ns.map fun x => x.2.id := by
  rw [← AList.mem_keys, ← AList.lookup_isSome, Option.isSome_iff_exists]
  simp only [hq.index, List.mem_map, Prod.exists]

theorem Represents.keys_perm (hq : Represents q ns) :
    q.qordermap.keys.Perm (ns.map fun x => x.2.id) :=
  (List.perm_ext_iff_of_nodup q.qordermap.keys_nodup hq.ids).mpr fun _ => hq.mem_keys

/-- The loop cancels the orders in the order of their ids, and ends with the queue empty, unless
    an order cannot be cancelled. -/
theorem cancNotifyAllLoop_represents {k : ℕ} {byId : List Order} (hq : Represents q ns)
    (hk : ns.length ≤ k) (hperm : byId.Perm (ns.map Prod.snd))
    (hsorted : byId.Pairwise fun o o' => idLe o.id o'.id) :
    match byId.mapM fun o => (o.cancNotify 0 .cancd).map Prod.snd with
    | none => q.cancNotifyAllLoop k = none
    | some notes =>
        ∃ q', q.cancNotifyAllLoop k = some (q', notes.flatten) ∧ Represents q' [] := by
  induction byId generalizing q ns k with
  | nil =>
      have hns : ns = [] := by simpa using hperm.symm.eq_nil
      subst hns
      have hkeys : q.qordermap.keys = [] := by simpa using hq.keys_perm.eq_nil
      refine ⟨q, ?_, hq⟩
      cases k <;> rw [cancNotifyAllLoop, hkeys] <;> rfl
  | cons o byId ih =>
      obtain ⟨⟨n, o'⟩, hmem, rfl⟩ := List.mem_map.mp (hperm.subset List.mem_cons_self)
      obtain ⟨l, r, rfl⟩ := List.append_of_mem hmem
      obtain ⟨hleast, hsorted'⟩ := List.pairwise_cons.mp hsorted
      obtain ⟨k, rfl⟩ : ∃ k', k = k' + 1 := Nat.exists_eq_succ_of_ne_zero (by
        rw [List.length_append, List.length_cons] at hk
        omega)
      -- the first of the map is the first by id
      have hkey : o'.id ∈ q.qordermap.keys := hq.mem_keys.mpr (List.mem_map_of_mem hmem)
      have hbegin : begin q.qordermap.keys = some o'.id := by
        obtain ⟨i, hi⟩ := Option.ne_none_iff_exists'.mp fun hnone =>
          List.ne_nil_of_mem hkey (begin_eq_none.mp hnone)
        obtain ⟨hmemi, hleasti⟩ := begin_least hi
        obtain ⟨x, hx, rfl⟩ := List.mem_map.mp (hq.mem_keys.mp hmemi)
        have hle : idLe o'.id x.2.id := by
          rcases List.mem_cons.mp (hperm.mem_iff.mpr (List.mem_map_of_mem hx)) with heq | hx'
          · rw [heq]
            exact (idLe_total _ _).elim id id
          · exact hleast _ hx'
        rw [hi, idLe_antisymm (hleasti _ hkey) hle]
      have hlookup : q.qordermap.lookup o'.id = some n := (hq.index _ _).mpr ⟨o', hmem, rfl⟩
      have hloop : q.cancNotifyAllLoop (k + 1) =
          (q.cancNotify n 0 .cancd).bind fun r =>
            (cancNotifyAllLoop k r.1).map fun r' => (r'.1, r.2 ++ r'.2) := by
        rw [cancNotifyAllLoop, hbegin]
        dsimp only
        rw [hlookup, Option.bind_some]
      rw [hloop, List.mapM_cons]
      rcases hcanc : o'.cancNotify 0 .cancd with _ | ⟨left, notes⟩
      · have hnone : q.cancNotify n 0 .cancd = none := by
          rcases hrun : q.cancNotify n 0 .cancd with _ | ⟨q₁, notes⟩
          · rfl
          · obtain ⟨left, hleft, -⟩ := cancNotify_represents hq hrun
            rw [hcanc] at hleft
            cases hleft
        rw [hnone]
        rfl
      · obtain rfl : left = none := cancNotify_cancd hcanc
        obtain ⟨q₁, hrun, hq₁⟩ := exists_cancNotify hq hcanc (Or.inr fun sz hsz => by
          obtain rfl : sz = 0 := (Option.some.inj hsz).symm
          have hpos : 0 < o'.sz := hq.sizes (n, o') hmem
          have hlt := hq.fits.1
          omega)
        have hq₁' : Represents q₁ (l ++ r) := by simpa using hq₁
        have hperm' : byId.Perm ((l ++ r).map Prod.snd) := by
          rw [List.map_append, List.map_cons] at hperm
          rw [List.map_append]
          exact (hperm.trans List.perm_middle).cons_inv
        have hlen : (l ++ r).length ≤ k := by
          rw [List.length_append, List.length_cons] at hk
          rw [List.length_append]
          omega
        have hrest := ih hq₁' hlen hperm' hsorted'
        rw [hrun, Option.bind_some]
        dsimp only [Option.map_some]
        rcases hall : byId.mapM fun o : Order => (o.cancNotify 0 .cancd).map Prod.snd with _ | all
        · rw [hall] at hrest
          dsimp only at hrest
          rw [hrest]
          rfl
        · rw [hall] at hrest
          obtain ⟨q₂, hrun₂, hq₂⟩ := hrest
          refine ⟨q₂, ?_, hq₂⟩
          rw [hrun₂]
          rfl

/-- The queue ends empty, with the messages of `OrderBook`; or neither can go on. -/
theorem cancNotifyAll_represents (hq : Represents q ns) :
    match OB.cancNotifyAll (ns.map Prod.snd) with
    | none => q.cancNotifyAll = none
    | some notes => ∃ q', q.cancNotifyAll = some (q', notes) ∧ Represents q' [] := by
  have : Std.Total fun o o' : Order => idLe o.id o'.id := ⟨fun _ _ => idLe_total _ _⟩
  have : IsTrans Order fun o o' => idLe o.id o'.id := ⟨fun _ _ _ => idLe_trans⟩
  have hloop := cancNotifyAllLoop_represents hq (k := q.qordermap.keys.length)
    (by rw [hq.keys_perm.length_eq, List.length_map])
    (List.perm_insertionSort (fun o o' : Order => idLe o.id o'.id) (ns.map Prod.snd))
    (List.pairwise_insertionSort _ _)
  unfold OB.cancNotifyAll
  change match Option.map List.flatten (List.mapM (fun o : Order =>
    (o.cancNotify 0 .cancd).map Prod.snd) (List.insertionSort (fun o o' : Order =>
      idLe o.id o'.id) (ns.map Prod.snd))) with | none => _ | some notes => _
  split at hloop
  · next hnone => rw [hnone]; exact hloop
  · next notes hsome => rw [hsome]; exact hloop

/-! ### `get_orders_in_book` -/

/-- The first node of a queue holds its order and points to the second. -/
theorem first_node {heap : Heap Ptr Obj} {p : Option Ptr} {x : Ptr × Order}
    (hseg : Segment heap p ((x :: ns).map Prod.fst) none)
    (hx : val heap x.1 = some (resting x.2)) :
    ∃ nd, heap x.1 = some nd ∧ nd.val = resting x.2 ∧ nd.next = (ns.map Prod.fst).head? := by
  obtain ⟨nd, hnd, hval⟩ := Option.map_eq_some_iff.mp hx
  have hlinks := hseg.1
  rw [LinkedList.links, hnd, Option.map_some, Option.or_none] at hlinks
  exact ⟨nd, hnd, hval, congrArg Prod.snd (Option.some.inj hlinks)⟩

theorem walkBook_segment {heap : Heap Ptr Obj} {k : ℕ} {p : Option Ptr}
    (hseg : Segment heap p (ns.map Prod.fst) none)
    (hobjs : ∀ x ∈ ns, val heap x.1 = some (resting x.2)) (hk : ns.length ≤ k) :
    walkBook heap k (ns.map Prod.fst).head? =
      some (OB.ordersInBook (ns.map Prod.snd), ((reals (ns.map Prod.snd)).length : ℤ)) := by
  induction ns generalizing k p with
  | nil => cases k <;> rfl
  | cons x ns ih =>
      obtain ⟨hx, hobjs'⟩ := List.forall_mem_cons.mp hobjs
      obtain ⟨nd, hnd, hval, hnext⟩ := first_node hseg hx
      obtain ⟨k, rfl⟩ : ∃ k', k = k' + 1 := Nat.exists_eq_succ_of_ne_zero (by
        rw [List.length_cons] at hk
        omega)
      have hrest := ih hseg.2 hobjs' (Nat.le_of_succ_le_succ hk)
      change walkBook heap (k + 1) (some x.1) = _
      rw [walkBook, hnd, Option.bind_some, hnext, hrest, Option.map_some, hval, List.map_cons,
        ordersInBook_cons, reals_cons_length]
      split <;> simp

/-- The assertions of `get_orders_in_book` hold. -/
theorem getOrdersInBook_represents (hq : Represents q ns) :
    q.getOrdersInBook = some (OB.ordersInBook (ns.map Prod.snd)) := by
  have hwalk := walkBook_segment (k := q.qordermap.keys.length) hq.linked.segment hq.objs
    (by rw [hq.keys_perm.length_eq, List.length_map])
  unfold getOrdersInBook
  rw [hq.linked.head_eq, hwalk, Option.bind_some,
    if_pos ⟨hq.ordersInBook_eq.symm, hq.sizeOfBookCnt_eq.symm⟩, hq.ordersInBook_eq]

/-! ### Steps -/

/-- A call on the list, by the functions of `OrderBook`. -/
inductive Made (ns : List (Ptr × Order)) : Call → List Note → List (Ptr × Order) → Prop
  | append {n : Ptr} {o : Order} (hnew : newOrder o = some o) (hid : ∀ x ∈ ns, x.2.id ≠ o.id) :
      Made ns (.append n o) [] (ns ++ [(n, o)])
  | cancNotify {l r : List (Ptr × Order)} {n : Ptr} {o : Order} {left : Option Order}
      {dispSz : ℤ} {modtyp : Mt} {notes : List Note} (hns : ns = l ++ (n, o) :: r)
      (hcanc : o.cancNotify dispSz modtyp = some (left, notes)) :
      Made ns (.cancNotify n dispSz modtyp) notes (l ++ (left.map fun o' => (n, o')).toList ++ r)
  | fillNotify {l r : List (Ptr × Order)} {n : Ptr} {o o' : Order} {sz dispSz px : ℤ}
      {modtyp : Mt} {tim : ℕ} {note : Note} (hns : ns = l ++ (n, o) :: r)
      (hfill : o.fillNotify sz px tim = some (o', note)) :
      Made ns (.fillNotify n sz dispSz px modtyp tim) [note]
        (if o'.sz = 0 ∨ modtyp = .execd then l ++ r else l ++ (n, o') :: r)
  | cancNotifyAll {notes : List Note}
      (hall : OB.cancNotifyAll (ns.map Prod.snd) = some notes) : Made ns .cancNotifyAll notes []

/-- New orders have an id that the queue does not hold. -/
def FreshId (q : OrderQ) : Call → Prop
  | .append _ o => q.qordermap.lookup o.id = none
  | _ => True

instance (q : OrderQ) : ∀ c, Decidable (q.FreshId c)
  | .append _ o => inferInstanceAs (Decidable (q.qordermap.lookup o.id = none))
  | .cancNotify .. => isTrue trivial
  | .fillNotify .. => isTrue trivial
  | .cancNotifyAll => isTrue trivial

/-- A pointer to an order of the queue. -/
theorem Represents.exists_order (hq : Represents q ns) (hn : (q.heap n).isSome = true) :
    ∃ l r o, ns = l ++ (n, o) :: r := by
  have hval : val q.heap n ≠ none := by
    obtain ⟨nd, hnd⟩ := Option.isSome_iff_exists.mp hn
    rw [val, hnd]
    exact Option.some_ne_none _
  obtain ⟨⟨n', o⟩, hmem, rfl⟩ := List.mem_map.mp (hq.owned n hval)
  obtain ⟨l, r, hns⟩ := List.append_of_mem hmem
  exact ⟨l, r, o, hns⟩

/-- **Refinement.**  A call of the queue is a call on the list it represents. -/
theorem step_made {c : Call} {notes : List Note} (hq : Represents q ns) (hfresh : q.FreshId c)
    (h : step q c = some (q', notes)) : ∃ ns', Made ns c notes ns' ∧ Represents q' ns' := by
  cases c with
  | append n o =>
      obtain ⟨o', hnew, happend⟩ := Option.bind_eq_some_iff.mp h
      obtain ⟨q₁, hrun, heq⟩ := Option.map_eq_some_iff.mp happend
      cases heq
      cases newOrder_eq hnew
      have hid : ∀ x ∈ ns, x.2.id ≠ o.id := by
        intro x hx heq
        have hlookup := (hq.index x.2.id x.1).mpr ⟨x.2, hx, rfl⟩
        rw [heq, show q.qordermap.lookup o.id = none from hfresh] at hlookup
        cases hlookup
      exact ⟨_, .append hnew hid, append_represents hq hid hrun⟩
  | cancNotify n dispSz modtyp =>
      have hn : (q.heap n).isSome = true := by
        obtain ⟨nd, hnd, -⟩ := Option.bind_eq_some_iff.mp h
        rw [hnd]
        rfl
      obtain ⟨l, r, o, rfl⟩ := hq.exists_order hn
      obtain ⟨left, hcanc, hrep⟩ := cancNotify_represents hq h
      exact ⟨_, .cancNotify rfl hcanc, hrep⟩
  | fillNotify n sz dispSz px modtyp tim =>
      have hn : (q.heap n).isSome = true := by
        obtain ⟨nd, hnd, -⟩ := Option.bind_eq_some_iff.mp h
        rw [hnd]
        rfl
      obtain ⟨l, r, o, rfl⟩ := hq.exists_order hn
      obtain ⟨o', note, hfill, rfl, hrep⟩ := fillNotify_represents hq h
      exact ⟨_, .fillNotify rfl hfill, hrep⟩
  | cancNotifyAll =>
      have hall := cancNotifyAll_represents hq
      change q.cancNotifyAll = _ at h
      split at hall
      · rw [hall] at h
        cases h
      · next notes' hnotes =>
        obtain ⟨q₁, hrun, hrep⟩ := hall
        cases h.symm.trans hrun
        exact ⟨[], .cancNotifyAll hnotes, hrep⟩

/-! ### Order -/

/-- The ids of the orders, from head to tail. -/
abbrev idsOf (ns : List (Ptr × Order)) : List LongId := ns.map fun x => x.2.id

theorem idsOf_without {l r : List (Ptr × Order)} {o : Order}
    (hids : (idsOf (l ++ (n, o) :: r)).Nodup) :
    idsOf (l ++ r) = (idsOf (l ++ (n, o) :: r)).filter fun i => decide (i ≠ o.id) := by
  simp only [idsOf, List.map_append, List.map_cons] at hids ⊢
  obtain ⟨hnot, -⟩ := List.nodup_cons.mp (List.nodup_middle.mp hids)
  rw [List.filter_append, List.filter_cons_of_neg (by simp), List.filter_eq_self.mpr,
    List.filter_eq_self.mpr]
  · intro i hi
    have hne : i ≠ o.id := fun h => hnot (List.mem_append_right _ (h ▸ hi))
    simpa using hne
  · intro i hi
    have hne : i ≠ o.id := fun h => hnot (List.mem_append_left _ (h ▸ hi))
    simpa using hne

/-- A call takes orders out of the list or puts a new one at its end. -/
theorem Made.ids {ns' : List (Ptr × Order)} {c : Call} {notes : List Note}
    (h : Made ns c notes ns') (hids : (idsOf ns).Nodup) :
    ∃ (p : LongId → Bool) (new : List LongId),
      idsOf ns' = (idsOf ns).filter p ++ new ∧ ∀ i ∈ new, i ∉ idsOf ns := by
  have hsame : ∀ ns'', idsOf ns'' = idsOf ns → ∃ (p : LongId → Bool) (new : List LongId),
      idsOf ns'' = (idsOf ns).filter p ++ new ∧ ∀ i ∈ new, i ∉ idsOf ns :=
    fun ns'' heq => ⟨fun _ => true, [], by simpa using heq, by simp⟩
  cases h with
  | @append n o hnew hid =>
      refine ⟨fun _ => true, [o.id], by simp [idsOf], ?_⟩
      intro i hi hmem
      cases List.mem_singleton.mp hi
      obtain ⟨x, hx, heq⟩ := List.mem_map.mp hmem
      exact hid x hx heq
  | @cancNotify l r n o left dispSz modtyp notes hns hcanc =>
      subst hns
      cases left with
      | none =>
          refine ⟨fun i => decide (i ≠ o.id), [], ?_, by simp⟩
          rw [List.append_nil, ← idsOf_without hids]
          simp
      | some o' =>
          apply hsame
          simp [idsOf, cancNotify_id hcanc]
  | @fillNotify l r n o o' sz dispSz px modtyp tim note hns hfill =>
      subst hns
      obtain ⟨dest, -, -, -, -, rfl, -⟩ := fillNotify_eq_some.mp hfill
      split
      · refine ⟨fun i => decide (i ≠ o.id), [], ?_, by simp⟩
        rw [List.append_nil, ← idsOf_without hids]
      · apply hsame
        simp [idsOf]
  | cancNotifyAll hall => exact ⟨fun _ => false, [], by simp, by simp⟩

/-! ### Runs -/

/-- The order `i` is in the queue after every part of the run. -/
def Survives (q : OrderQ) (cs : List Call) (i : LongId) : Prop :=
  ∀ past rest q' out, cs = past ++ rest → run step q past = some (q', out) →
    (q'.qordermap.lookup i).isSome

theorem survives_concat {cs : List Call} {c : Call} {m : OrderQ} {out o : List Note} {i : LongId}
    (hrun : run step q cs = some (m, out)) (hstep : step m c = some (q', o)) :
    Survives q (cs ++ [c]) i ↔ Survives q cs i ∧ (q'.qordermap.lookup i).isSome := by
  constructor
  · intro h
    refine ⟨fun past rest m' out' hsplit hpast => ?_, ?_⟩
    · exact h past (rest ++ [c]) m' out' (by rw [hsplit, List.append_assoc]) hpast
    · exact h (cs ++ [c]) [] q' (out ++ o) (by simp) (run_concat.mpr ⟨m, out, o, hrun, hstep, rfl⟩)
  · rintro ⟨hbefore, hnow⟩ past rest m' out' hsplit hpast
    rcases List.eq_nil_or_concat' rest with rfl | ⟨rest, c', rfl⟩
    · rw [List.append_nil] at hsplit
      subst hsplit
      cases hpast.symm.trans (run_concat.mpr ⟨m, out, o, hrun, hstep, rfl⟩)
      exact hnow
    · rw [← List.append_assoc] at hsplit
      exact hbefore past rest m' out' (List.append_inj_left' hsplit rfl) hpast

theorem Represents.lookup_isSome (hq : Represents q ns) {i : LongId} :
    (q.qordermap.lookup i).isSome ↔ i ∈ idsOf ns := by
  rw [AList.lookup_isSome, AList.mem_keys]
  exact hq.mem_keys

/-- The orders that survive stand first, in the order in which they stood. -/
theorem survivors_first {cs : List Call} {out : List Note} (hq : Represents q ns)
    (hfresh : AllSteps step FreshId q cs) (hrun : run step q cs = some (q', out)) :
    ∃ ns' kept added, Represents q' ns' ∧ idsOf ns' = kept ++ added ∧
      kept.Sublist (idsOf ns) ∧ ∀ i, i ∈ kept ↔ i ∈ idsOf ns ∧ Survives q cs i := by
  refine (run_induction (I := fun past out m => run step q past = some (m, out) ∧
    ∃ ns' kept added, Represents m ns' ∧ idsOf ns' = kept ++ added ∧
      kept.Sublist (idsOf ns) ∧ ∀ i, i ∈ kept ↔ i ∈ idsOf ns ∧ Survives q past i)
    ⟨rfl, ns, idsOf ns, [], hq, by simp, List.Sublist.refl _, ?_⟩ ?_ hfresh hrun).2
  · intro i
    refine ⟨fun hi => ⟨hi, ?_⟩, And.left⟩
    intro past rest m out' hsplit hpast
    obtain ⟨rfl, -⟩ := List.append_eq_nil_iff.mp hsplit.symm
    cases hpast
    exact hq.lookup_isSome.mpr hi
  · rintro past out' m c m' o ⟨hpast, ns', kept, added, hm, hids, hsub, hkept⟩ hc hstep
    refine ⟨run_concat.mpr ⟨m, out', o, hpast, hstep, rfl⟩, ?_⟩
    obtain ⟨ns'', hmade, hm'⟩ := step_made hm hc hstep
    obtain ⟨p, new, hids', hnew⟩ := hmade.ids hm.ids
    refine ⟨ns'', kept.filter p, added.filter p ++ new, hm', ?_, ?_, ?_⟩
    · rw [hids', hids, List.filter_append, List.append_assoc]
    · exact List.filter_sublist.trans hsub
    · intro i
      -- an order that was kept is still there exactly when the call has not taken it out
      have hmem : i ∈ kept → (i ∈ idsOf ns'' ↔ p i = true) := by
        intro hi
        have hold : i ∈ idsOf ns' := by
          rw [hids]
          exact List.mem_append_left _ hi
        have hnot : i ∉ new := fun h => hnew i h hold
        rw [hids', List.mem_append, List.mem_filter]
        simp [hold, hnot]
      rw [List.mem_filter, survives_concat hpast hstep, hm'.lookup_isSome, ← and_assoc, ← hkept]
      exact and_congr_right fun hi => (hmem hi).symm

/-- **The queue of a level.**  After every sequence of calls the pointers, the index and the
    counters are those of one list of orders, and the orders that survive the calls that follow
    keep their order, ahead of all that come later. -/
theorem queue_represented {cs₁ cs₂ : List Call} {q₁ q₂ : OrderQ} {out₁ out₂ : List Note}
    (hfresh : AllSteps step FreshId {} (cs₁ ++ cs₂)) (hrun₁ : run step {} cs₁ = some (q₁, out₁))
    (hrun₂ : run step q₁ cs₂ = some (q₂, out₂)) :
    ∃ ns₁ ns₂ kept added, Represents q₁ ns₁ ∧ Represents q₂ ns₂ ∧
      idsOf ns₂ = kept ++ added ∧ kept.Sublist (idsOf ns₁) ∧
      ∀ i, i ∈ kept ↔ i ∈ idsOf ns₁ ∧ Survives q₁ cs₂ i := by
  obtain ⟨hfresh₁, hfresh₂⟩ := allSteps_append.mp hfresh
  obtain ⟨ns₁, -, -, hq₁, -⟩ := survivors_first represents_new hfresh₁ hrun₁
  obtain ⟨ns₂, kept, added, hq₂, hids, hsub, hkept⟩ :=
    survivors_first hq₁ (hfresh₂ q₁ out₁ hrun₁) hrun₂
  exact ⟨ns₁, ns₂, kept, added, hq₁, hq₂, hids, hsub, hkept⟩

/-- An order of a level; ours have an originator. -/
def levelOrder (venue id : ℕ) (sz : ℤ) : Order where
  tim := 1
  id := ⟨venue, id⟩
  exordid := id
  side := .buy
  sz := sz
  originator := if venue = xSIM then some 7 else none
  owner := 1

/-- One of the exchange's orders, two of ours, and another of the exchange's; the first of ours is
    filled in part and the last order is reduced. -/
def levelCalls : List Call :=
  [.append 1 (levelOrder 3 11 5), .append 2 (levelOrder xSIM 1 4), .append 3 (levelOrder xSIM 2 6),
    .append 4 (levelOrder 3 12 9), .fillNotify 2 3 (-1) 100 .exec 8, .cancNotify 4 7 .canc]

/-- The first and the third order go, and the address of the first is used again. -/
def laterCalls : List Call :=
  [.cancNotify 1 0 .cancd, .fillNotify 3 6 (-1) 100 .execd 9, .append 1 (levelOrder 3 13 2)]

theorem queue_represented_level :
    ∃ q₁ q₂ out₁ out₂ ns₁ ns₂ kept added, run step {} levelCalls = some (q₁, out₁) ∧
      run step q₁ laterCalls = some (q₂, out₂) ∧ Represents q₁ ns₁ ∧ Represents q₂ ns₂ ∧
      idsOf ns₂ = kept ++ added ∧ kept.Sublist (idsOf ns₁) ∧
      ∀ i, i ∈ kept ↔ i ∈ idsOf ns₁ ∧ Survives q₁ laterCalls i := by
  obtain ⟨⟨q₂, out⟩, hrun⟩ := Option.isSome_iff_exists.mp
    (by decide +kernel : (run step {} (levelCalls ++ laterCalls)).isSome = true)
  obtain ⟨q₁, out₁, out₂, hrun₁, hrun₂, -⟩ := run_append.mp hrun
  obtain ⟨ns₁, ns₂, kept, added, h⟩ := queue_represented (by decide +kernel) hrun₁ hrun₂
  exact ⟨q₁, q₂, out₁, out₂, ns₁, ns₂, kept, added, hrun₁, hrun₂, h⟩

end OrderQ

end KasparHft.OB
