import KasparHft.OrderQRuns

/-!
# Executions on a level's queue

`fill` and the `EXEC` branch of `mod` (`OB.cpp`) on the queue as it is: the recursion goes back
through `prev` while `fill_notify` deletes the orders it has filled.  It does what `OrderBook`
says of the list, so a traded size is conserved: our orders ahead of the executed one get the
traded size or all they have, each with one message, and nothing else changes.
-/

namespace KasparHft.OB

open Allocation AssocMap LinkedList Machine

namespace OrderQ

/-! ### The source's functions -/

/-- The loop of `get_head_no_sim`, over at most `k` orders. -/
def headNoSim (heap : Heap Ptr Obj) : ℕ → Option Ptr → Option (Option Ptr)
  | _, none => some none
  | 0, some _ => none
  | k + 1, some n =>
      (heap n).bind fun nd =>
        if nd.val.order.isSim then headNoSim heap k nd.next else some (some n)

/-- `get_head_no_sim`. -/
def getHeadNoSim (q : OrderQ) : Option (Option Ptr) :=
  headNoSim q.heap q.qordermap.keys.length q.head

/-- `OB::fill` of the order at `s`, a recursion over at most `k` orders.  `prev` is read before the
    order is deleted. -/
def fill (px : ℤ) (tim : ℕ) : ℕ → OrderQ → Ptr → ℤ → Option (OrderQ × List Note)
  | 0, _, _, _ => none
  | k + 1, q, s, sz =>
      (q.heap s).bind fun nd =>
        let o := nd.val.order
        let fillsz := min o.sz sz
        if fillsz ≤ 0 ∨ o.isSim = false ∨ q.qordermap.lookup o.id = none ∨ tim = 0 then none
        else if o.sz ≤ sz then
          (q.fillNotify s o.sz (-1) px .execd tim).bind fun r =>
            match nd.prev with
            | none => some r
            | some prev =>
                if 0 < sz - fillsz then
                  (r.1.heap prev).bind fun nd' =>
                    if nd'.val.order.isSim then
                      (fill px tim k r.1 prev (sz - fillsz)).map fun r' => (r'.1, r.2 ++ r'.2)
                    else some r
                else some r
        else
          (q.fillNotify s fillsz (-1) px .exec tim).bind fun r =>
            (r.1.heap s).bind fun nd' => if 0 < nd'.val.order.sz then some r else none

/-- `do_exec` of the order at `n`, with `fill_prev_sim_order`. -/
def doExec (q : OrderQ) (n : Ptr) (sz px : ℤ) (tim : ℕ) : Option (OrderQ × List Note) :=
  (q.heap n).bind fun nd =>
    if nd.val.order.isSim then none
    else
      q.getHeadNoSim.bind fun first =>
        if first = some n then
          match nd.prev with
          | none => some (q, [])
          | some prev =>
              (q.heap prev).bind fun nd' =>
                if nd'.val.order.isSim then fill px tim q.qordermap.keys.length q prev sz
                else some (q, [])
        else some (q, [])

/-- `mod` on the queue of the level, for an `EXEC`. -/
def modExec (q : OrderQ) (a : ModArgs) : Option (OrderQ × List Note) :=
  match q.qordermap.lookup a.id with
  | none => (notFound a).map fun notes => (q, notes)
  | some n =>
      (q.heap n).bind fun nd =>
        if a.sz ≤ 0 ∨ nd.val.order.isSim ≠ isSim a.id then none else q.doExec n a.sz a.px a.txtim

/-! ### They do what `OrderBook` says of the list -/

variable {q : OrderQ} {ns l r : List (Ptr × Order)} {n s : Ptr} {o : Order}

/-- An order of the queue, with the pointer to the one before it. -/
theorem Represents.node (hq : Represents q (l ++ (n, o) :: r)) :
    ∃ nd, q.heap n = some nd ∧ nd.val = resting o ∧ nd.prev = (l.map Prod.fst).getLast? := by
  obtain ⟨nd, hnd, hval⟩ := Option.map_eq_some_iff.mp hq.val_at
  refine ⟨nd, hnd, hval, ?_⟩
  have hlinks := hq.linked_mid.links
  rw [LinkedList.links, hnd] at hlinks
  exact congrArg Prod.fst (Option.some.inj hlinks)

/-- A fill that the list does not take, the queue does not take. -/
theorem fillNotify_eq_none {sz dispSz px : ℤ} {modtyp : Mt} {tim : ℕ}
    (hq : Represents q (l ++ (n, o) :: r)) (hfill : o.fillNotify sz px tim = none) :
    q.fillNotify n sz dispSz px modtyp tim = none := by
  rcases hrun : q.fillNotify n sz dispSz px modtyp tim with _ | ⟨q', notes⟩
  · rfl
  · obtain ⟨o', note, hfill', -⟩ := fillNotify_represents hq hrun
    rw [hfill] at hfill'
    cases hfill'

/-- The recursion ends, with what `OrderBook` says of the orders from `s` to the head. -/
theorem fill_represents {k : ℕ} (px sz : ℤ) (tim : ℕ) (hq : Represents q (l ++ (s, o) :: r))
    (hk : l.length < k) :
    match OB.fill px tim (o :: (l.map Prod.snd).reverse) sz with
    | none => q.fill px tim k s sz = none
    | some (left, notes) =>
        ∃ q' l', q.fill px tim k s sz = some (q', notes) ∧ Represents q' (l' ++ r) ∧
          l'.map Prod.snd = left.reverse := by
  induction k generalizing q l s o sz with
  | zero => omega
  | succ k ih =>
      obtain ⟨nd, hnd, hval, hprev⟩ := hq.node
      have hlookup : q.qordermap.lookup o.id = some s := (hq.index _ _).mpr ⟨o, by simp, rfl⟩
      unfold OB.fill fill
      rw [hnd, Option.bind_some, hval, hprev]
      dsimp only
      have hfound : (min o.sz sz ≤ 0 ∨ o.isSim = false ∨ q.qordermap.lookup o.id = none ∨ tim = 0) ↔
          (min o.sz sz ≤ 0 ∨ o.isSim = false ∨ tim = 0) := by simp [hlookup]
      by_cases hguard : min o.sz sz ≤ 0 ∨ o.isSim = false ∨ tim = 0
      · rw [if_pos hguard, if_pos (hfound.mpr hguard)]
      · rw [if_neg hguard, if_neg (mt hfound.mp hguard)]
        have htim : tim ≠ 0 := fun h => hguard (Or.inr (Or.inr h))
        by_cases hle : o.sz ≤ sz
        · -- filled entirely
          rw [if_pos hle, if_pos hle, min_eq_left hle]
          rcases hfill : o.fillNotify o.sz px tim with _ | ⟨o', note⟩
          · rw [fillNotify_eq_none hq hfill]
            rfl
          · obtain ⟨q₁, hrun⟩ := exists_fillNotify hq hfill htim (Or.inr rfl)
              (by decide : (-1 : ℤ) < 0)
            obtain ⟨_, _, -, -, hq₁⟩ := fillNotify_represents hq hrun
            rw [if_pos (Or.inr rfl)] at hq₁
            rw [hrun, Option.bind_some]
            dsimp only
            rcases List.eq_nil_or_concat' l with rfl | ⟨init, ⟨p, op⟩, rfl⟩
            · rw [if_neg (by simp)]
              exact ⟨q₁, [], rfl, hq₁, rfl⟩
            · have hlast : ((init ++ [(p, op)]).map Prod.fst).getLast? = some p := by simp
              have hrev : ((init ++ [(p, op)]).map Prod.snd).reverse =
                  op :: (init.map Prod.snd).reverse := by simp
              have hq₁' : Represents q₁ (init ++ (p, op) :: r) := by simpa using hq₁
              obtain ⟨ndp, hndp, hvalp, -⟩ := hq₁'.node
              rw [hlast, hrev]
              have hany : (op :: (init.map Prod.snd).reverse).head?.any Order.isSim = op.isSim :=
                rfl
              dsimp only
              by_cases hmore : 0 < sz - o.sz
              · rw [if_pos hmore, hndp, Option.bind_some, hvalp]
                dsimp only
                by_cases hsim : op.isSim = true
                · rw [if_pos ⟨hmore, hany.trans hsim⟩, if_pos hsim]
                  have hrec := ih (sz - o.sz) hq₁' (by simpa using hk)
                  rcases hlist : OB.fill px tim (op :: (init.map Prod.snd).reverse) (sz - o.sz)
                    with _ | ⟨left, notes⟩
                  · rw [hlist] at hrec
                    dsimp only at hrec
                    rw [hrec]
                    rfl
                  · rw [hlist] at hrec
                    obtain ⟨q₂, l', hrun₂, hq₂, hl'⟩ := hrec
                    refine ⟨q₂, l', ?_, hq₂, hl'⟩
                    rw [hrun₂]
                    rfl
                · rw [if_neg fun h => hsim (hany.symm.trans h.2), if_neg hsim]
                  exact ⟨q₁, init ++ [(p, op)], rfl, hq₁, by simp⟩
              · rw [if_neg fun h => hmore h.1, if_neg hmore]
                exact ⟨q₁, init ++ [(p, op)], rfl, hq₁, by simp⟩
        · -- filled in part
          rw [if_neg hle, if_neg hle, min_eq_right (not_le.mp hle).le]
          rcases hfill : o.fillNotify sz px tim with _ | ⟨o', note⟩
          · rw [fillNotify_eq_none hq hfill]
            rfl
          · obtain ⟨rfl, rfl⟩ := fillNotify_fillNote hfill
            obtain ⟨q₁, hrun⟩ := exists_fillNotify hq hfill htim (Or.inl rfl)
              (by decide : (-1 : ℤ) < 0)
            obtain ⟨o₁, note₁, hfill₁, -, hq₁⟩ := fillNotify_represents hq hrun
            cases hfill.symm.trans hfill₁
            have hpos : 0 < o.sz - sz := sub_pos.mpr (not_le.mp hle)
            rw [if_neg (by simpa using hpos.ne')] at hq₁
            obtain ⟨nd₁, hnd₁, hval₁, -⟩ := hq₁.node
            rw [hrun, Option.bind_some]
            dsimp only
            rw [hnd₁, Option.bind_some, hval₁, if_pos hpos, if_pos hpos]
            exact ⟨q₁, l ++ [(s, { o with sz := o.sz - sz })], rfl, by simpa using hq₁, by simp⟩

/-- The first order that is not ours. -/
theorem headNoSim_segment {heap : Heap Ptr Obj} {k : ℕ} {p : Option Ptr}
    (hseg : Segment heap p (ns.map Prod.fst) none)
    (hobjs : ∀ x ∈ ns, val heap x.1 = some (resting x.2)) (hk : ns.length ≤ k) :
    headNoSim heap k (ns.map Prod.fst).head? =
      some ((ns.dropWhile fun x => x.2.isSim).head?.map Prod.fst) := by
  induction ns generalizing k p with
  | nil => cases k <;> rfl
  | cons x ns ih =>
      obtain ⟨hx, hobjs'⟩ := List.forall_mem_cons.mp hobjs
      obtain ⟨nd, hnd, hval, hnext⟩ := first_node hseg hx
      obtain ⟨k, rfl⟩ : ∃ k', k = k' + 1 := Nat.exists_eq_succ_of_ne_zero (by
        rw [List.length_cons] at hk
        omega)
      change headNoSim heap (k + 1) (some x.1) = _
      rw [headNoSim, hnd, Option.bind_some, hval, hnext]
      dsimp only
      cases hsim : x.2.isSim
      · rw [List.dropWhile_cons_of_neg (by simp [hsim])]
        rfl
      · rw [List.dropWhile_cons_of_pos (by simp [hsim]), if_pos rfl,
          ih hseg.2 hobjs' (Nat.le_of_succ_le_succ hk)]

theorem getHeadNoSim_represents (hq : Represents q ns) :
    q.getHeadNoSim = some ((ns.dropWhile fun x => x.2.isSim).head?.map Prod.fst) := by
  unfold getHeadNoSim
  rw [hq.linked.head_eq]
  exact headNoSim_segment hq.linked.segment hq.objs
    (by rw [hq.keys_perm.length_eq, List.length_map])

/-- `do_exec` of an order of the queue that is not ours. -/
theorem doExec_represents {a : ModArgs} (hq : Represents q (l ++ (n, o) :: r))
    (hreal : o.isSim = false) (hid : o.id = a.id) :
    match OB.doExec ((l ++ (n, o) :: r).map Prod.snd) a with
    | none => q.doExec n a.sz a.px a.txtim = none
    | some (os', notes) =>
        ∃ q' ns', q.doExec n a.sz a.px a.txtim = some (q', notes) ∧ Represents q' ns' ∧
          ns'.map Prod.snd = os' := by
  obtain ⟨nd, hnd, hval, hprev⟩ := hq.node
  have hnotsim : ¬ o.isSim = true := by simp [hreal]
  have hrun : q.doExec n a.sz a.px a.txtim =
      if ((l ++ (n, o) :: r).dropWhile fun x => x.2.isSim).head?.map Prod.fst = some n then
        match (l.map Prod.fst).getLast? with
        | none => some (q, [])
        | some prev =>
            (q.heap prev).bind fun nd' =>
              if nd'.val.order.isSim then
                fill a.px a.txtim q.qordermap.keys.length q prev a.sz
              else some (q, [])
      else some (q, []) := by
    unfold doExec
    rw [hnd, Option.bind_some, hval, if_neg hnotsim, getHeadNoSim_represents hq,
      Option.bind_some, hprev]
  rw [hrun]
  by_cases hall : ∀ x ∈ l, x.2.isSim = true
  · -- it is the first real one
    have hdrop : (l ++ (n, o) :: r).dropWhile (fun x => x.2.isSim) = (n, o) :: r := by
      rw [List.dropWhile_append_of_pos hall, List.dropWhile_cons_of_neg (by simp [hreal])]
    have hlist : OB.doExec ((l ++ (n, o) :: r).map Prod.snd) a =
        if l.map Prod.snd ≠ [] then
          (OB.fill a.px a.txtim (l.map Prod.snd).reverse a.sz).map fun x =>
            (x.1.reverse ++ ((n, o) :: r).map Prod.snd, x.2)
        else some ((l ++ (n, o) :: r).map Prod.snd, []) := by
      unfold OB.doExec
      rw [List.takeWhile_map, List.dropWhile_map, Function.comp_def, hdrop,
        List.takeWhile_append_of_pos hall, List.takeWhile_cons_of_neg (by simp [hreal]),
        List.append_nil]
      simp [hid]
    rw [hlist, hdrop, if_pos (show ((n, o) :: r).head?.map Prod.fst = some n from rfl)]
    rcases List.eq_nil_or_concat' l with rfl | ⟨init, ⟨p, op⟩, rfl⟩
    · exact ⟨q, (n, o) :: r, rfl, hq, rfl⟩
    · have hlast : ((init ++ [(p, op)]).map Prod.fst).getLast? = some p := by simp
      have hrev : ((init ++ [(p, op)]).map Prod.snd).reverse =
          op :: (init.map Prod.snd).reverse := by simp
      have hq' : Represents q (init ++ (p, op) :: ((n, o) :: r)) := by simpa using hq
      obtain ⟨ndp, hndp, hvalp, -⟩ := hq'.node
      have hsim : op.isSim = true := hall (p, op) (by simp)
      have hlen : init.length < q.qordermap.keys.length := by
        rw [hq'.keys_perm.length_eq, List.length_map, List.length_append, List.length_cons]
        omega
      rw [hlast, hrev, if_pos (by simp)]
      dsimp only
      rw [hndp, Option.bind_some, hvalp, if_pos hsim]
      have hfill := fill_represents a.px a.sz a.txtim hq' hlen
      rcases hres : OB.fill a.px a.txtim (op :: (init.map Prod.snd).reverse) a.sz
        with _ | ⟨left, notes⟩
      · rw [hres] at hfill
        exact hfill
      · rw [hres] at hfill
        obtain ⟨q', l', hrun', hq'', hl'⟩ := hfill
        exact ⟨q', _, hrun', hq'', by rw [List.map_append, hl']⟩
  · -- a real order is ahead of it
    have hne : l.dropWhile (fun x => x.2.isSim) ≠ [] := by
      rwa [Ne, List.dropWhile_eq_nil_iff]
    obtain ⟨x, rest, hx⟩ := List.exists_cons_of_ne_nil hne
    have hmem : x ∈ l ++ r := List.mem_append_left _
      ((List.dropWhile_subset _) (hx ▸ List.mem_cons_self))
    have hdrop : (l ++ (n, o) :: r).dropWhile (fun x => x.2.isSim) =
        x :: (rest ++ (n, o) :: r) := by
      rw [List.dropWhile_append, hx]
      rfl
    have hlist : OB.doExec ((l ++ (n, o) :: r).map Prod.snd) a =
        some ((l ++ (n, o) :: r).map Prod.snd, []) := by
      unfold OB.doExec
      rw [List.dropWhile_map, Function.comp_def, hdrop]
      apply if_neg
      rintro ⟨hany, -⟩
      have hxid : x.2.id = a.id := by simpa using hany
      exact hq.id_ne hmem (hxid.trans hid.symm)
    have hfirst : ¬ ((x :: (rest ++ (n, o) :: r)).head?.map Prod.fst = some n) :=
      fun h => hq.pointer_ne hmem (Option.some.inj h)
    rw [hlist, hdrop, if_neg hfirst]
    exact ⟨q, _, rfl, hq, rfl⟩

/-- **An `EXEC` on the queue is an `EXEC` on the list it represents.** -/
theorem modExec_represents {a : ModArgs} (hq : Represents q ns) (hexec : a.modtyp = .exec)
    (hreal : isSim a.id = false) (hsz : 0 < a.sz) :
    match OB.doExec (ns.map Prod.snd) a with
    | none => q.modExec a = none
    | some (os', notes) =>
        ∃ q' ns', q.modExec a = some (q', notes) ∧ Represents q' ns' ∧
          ns'.map Prod.snd = os' := by
  unfold modExec
  rcases hlookup : q.qordermap.lookup a.id with _ | n
  · -- no order of this id
    have hnot : ∀ x ∈ ns, x.2.id ≠ a.id := by
      intro x hx heq
      have hsome := (hq.index x.2.id x.1).mpr ⟨x.2, hx, rfl⟩
      rw [heq, hlookup] at hsome
      cases hsome
    have hnone : notFound a = some [] := by
      unfold notFound
      rw [if_neg (by simp [hreal]), if_neg (by simp [hexec])]
    have hlist : OB.doExec (ns.map Prod.snd) a = some (ns.map Prod.snd, []) := by
      unfold OB.doExec
      apply if_neg
      rintro ⟨hany, -⟩
      rcases hdrop : (ns.map Prod.snd).dropWhile Order.isSim with _ | ⟨o, os⟩
      · rw [hdrop] at hany
        cases hany
      · rw [hdrop] at hany
        have hmem : o ∈ ns.map Prod.snd :=
          (List.dropWhile_subset _) (hdrop ▸ List.mem_cons_self)
        obtain ⟨x, hx, rfl⟩ := List.mem_map.mp hmem
        exact hnot x hx (by simpa using hany)
    rw [hlist, hnone]
    exact ⟨q, ns, rfl, hq, rfl⟩
  · obtain ⟨o, hmem, hid⟩ := (hq.index _ _).mp hlookup
    obtain ⟨l, r, rfl⟩ := List.append_of_mem hmem
    obtain ⟨nd, hnd, hval, -⟩ := hq.node
    have hsim : o.isSim = false := by
      rw [Order.isSim, hid]
      exact hreal
    dsimp only
    rw [hnd, Option.bind_some, hval, if_neg]
    · exact doExec_represents hq hsim hid
    · rintro (h | h)
      · exact absurd hsz (not_lt.mpr h)
      · exact h (hsim.trans hreal.symm)

/-! ### Conservation -/

theorem Represents.order_ids (hq : Represents q ns) : ((ns.map Prod.snd).map Order.id).Nodup := by
  rw [List.map_map]
  exact hq.ids

theorem Represents.order_sizes (hq : Represents q ns) : ∀ o ∈ ns.map Prod.snd, 0 < o.sz := by
  intro o ho
  obtain ⟨x, hx, rfl⟩ := List.mem_map.mp ho
  exact hq.sizes x hx

/-- What an `EXEC` fills, by id. -/
theorem modExec_filled {a : ModArgs} {q' : OrderQ} {notes : List Note} (hq : Represents q ns)
    (hexec : a.modtyp = .exec) (hreal : isSim a.id = false) (hsz : 0 < a.sz)
    (h : q.modExec a = some (q', notes)) :
    ∃ ns' f, Represents q' ns' ∧ FilledBy (ns.map Prod.snd) a.id a.sz f ∧
      ns'.map Prod.snd = takenBy f (ns.map Prod.snd) ∧
      notes = fillNotes a.px a.txtim f (runAhead (ns.map Prod.snd) a.id).reverse := by
  have hlist := modExec_represents hq hexec hreal hsz
  rcases hdo : OB.doExec (ns.map Prod.snd) a with _ | ⟨os', notes'⟩
  · rw [hdo] at hlist
    rw [show q.modExec a = none from hlist] at h
    cases h
  · rw [hdo] at hlist
    obtain ⟨q₁, ns', hrun, hq', hns'⟩ := hlist
    cases h.symm.trans hrun
    obtain ⟨f, hf, rfl, rfl⟩ := doExec_allocates hq.order_sizes hq.order_ids hsz hdo
    exact ⟨ns', f, hq', hf, hns', rfl⟩

/-- **Conservation.**  An `EXEC` on an order that is not ours ends, and fills of our orders ahead
    of it, if it is the first real one, the size that traded or all they have: `f` says what of
    each.  Each is told so once, leaves when nothing is left of it, and nothing else changes. -/
theorem exec_conserves {a : ModArgs} (hq : Represents q ns) (hexec : a.modtyp = .exec)
    (hreal : isSim a.id = false) (hsz : 0 < a.sz) :
    ((a.txtim ≠ 0 ∧ ∀ o ∈ runAhead (ns.map Prod.snd) a.id, o.originator ≠ none) →
      ∃ r, q.modExec a = some r) ∧
    ∀ q' notes, q.modExec a = some (q', notes) →
      ∃ ns' f, Represents q' ns' ∧
        ((ns.map Prod.snd).map fun o => f o.id).sum =
          min a.sz ((runAhead (ns.map Prod.snd) a.id).map Order.sz).sum ∧
        (∀ o ∈ ns.map Prod.snd, 0 ≤ f o.id ∧ f o.id ≤ o.sz ∧
          (f o.id ≠ 0 → o ∈ runAhead (ns.map Prod.snd) a.id) ∧
          (o.id ∉ idsOf ns' ↔ f o.id = o.sz)) ∧
        ns'.map Prod.snd = takenBy f (ns.map Prod.snd) ∧
        notes = fillNotes a.px a.txtim f (runAhead (ns.map Prod.snd) a.id).reverse := by
  constructor
  · rintro ⟨htim, horig⟩
    obtain ⟨⟨os', notes⟩, hdo⟩ := exists_doExec hq.order_sizes hsz htim horig
    have hlist := modExec_represents hq hexec hreal hsz
    rw [hdo] at hlist
    obtain ⟨q', _, hrun, -⟩ := hlist
    exact ⟨(q', notes), hrun⟩
  · intro q' notes h
    obtain ⟨ns', f, hq', hf, hns', hnotes⟩ := modExec_filled hq hexec hreal hsz h
    refine ⟨ns', f, hq', hf.total hq.order_ids hq.order_sizes hsz, ?_, hns', hnotes⟩
    intro o ho
    obtain ⟨hnonneg, hle⟩ := hf.bounds hq.order_ids hq.order_sizes hsz ho
    refine ⟨hnonneg, hle, hf.mem_run hq.order_ids ho, ?_⟩
    have hids : idsOf ns' = (takenBy f (ns.map Prod.snd)).map Order.id := by
      rw [← hns', List.map_map]
      rfl
    have hstays : o.id ∈ idsOf ns' ↔ f o.id < o.sz := by
      rw [hids, takenBy, List.map_map, List.mem_map]
      constructor
      · rintro ⟨o', ho', hid⟩
        obtain ⟨hmem, hlt⟩ := List.mem_filter.mp ho'
        obtain rfl := List.inj_on_of_nodup_map hq.order_ids hmem ho hid
        simpa using hlt
      · intro hlt
        exact ⟨o, List.mem_filter.mpr ⟨ho, by simpa using hlt⟩, rfl⟩
    rw [hstays, not_lt]
    exact ⟨fun h => le_antisymm hle h, fun h => h.ge⟩

/-- Two orders of ours, and one of the exchange's behind them. -/
def twoSims : List Call :=
  [.append 1 (levelOrder xSIM 1 5), .append 2 (levelOrder xSIM 2 5), .append 3 (levelOrder 3 11 5)]

/-- An execution of the exchange's order. -/
def tradeOf (sz : ℤ) : ModArgs where
  sender := none
  txtim := 9
  id := ⟨3, 11⟩
  modtyp := .exec
  side := .buy
  px := 100
  sz := sz
  dispSz := 0
  mkt := 3
  exordid := 11

theorem twoSims_traded (sz : ℤ) (h : ((run step {} twoSims).bind fun r =>
    r.1.modExec (tradeOf sz)).isSome = true) :
    ∃ q ns q' notes, run step {} twoSims = some (q, []) ∧ Represents q ns ∧
      q.modExec (tradeOf sz) = some (q', notes) := by
  obtain ⟨⟨q', notes⟩, hsome⟩ := Option.isSome_iff_exists.mp h
  obtain ⟨⟨q, out⟩, hrun, hexec⟩ := Option.bind_eq_some_iff.mp hsome
  have hout : (run step {} twoSims).map Prod.snd = some [] := by decide +kernel
  rw [hrun] at hout
  cases hout
  obtain ⟨ns, -, -, hq, -⟩ := survivors_first represents_new (by decide +kernel) hrun
  exact ⟨q, ns, q', notes, hrun, hq, hexec⟩

theorem exec_conserves_twoSims :
    ∃ q ns q' notes ns' f, run step {} twoSims = some (q, []) ∧ Represents q ns ∧
      q.modExec (tradeOf 7) = some (q', notes) ∧ Represents q' ns' ∧
      ((ns.map Prod.snd).map fun o => f o.id).sum =
        min 7 ((runAhead (ns.map Prod.snd) ⟨3, 11⟩).map Order.sz).sum ∧
      ns'.map Prod.snd = takenBy f (ns.map Prod.snd) ∧
      notes = fillNotes 100 9 f (runAhead (ns.map Prod.snd) ⟨3, 11⟩).reverse := by
  obtain ⟨q, ns, q', notes, hrun, hq, hexec⟩ := twoSims_traded 7 (by decide +kernel)
  obtain ⟨ns', f, hq', htotal, -, hleft, hnotes⟩ :=
    (exec_conserves hq (a := tradeOf 7) rfl (by decide) (by decide)).2 q' notes hexec
  exact ⟨q, ns, q', notes, ns', f, hrun, hq, hexec, hq', htotal, hleft, hnotes⟩

/-! ### Which of our orders -/

/-- **The nearest first.**  Our orders get what serving them from the front of the queue would
    give them exactly when there is at most one, or the size that traded fills them all. -/
theorem front_first_iff {a : ModArgs} {q' : OrderQ} {notes : List Note} (hq : Represents q ns)
    (hexec : a.modtyp = .exec) (hreal : isSim a.id = false) (hsz : 0 < a.sz)
    (h : q.modExec a = some (q', notes)) :
    (runAhead (ns.map Prod.snd) a.id).map (fun o => filledFor notes o.id) =
        allocate ((runAhead (ns.map Prod.snd) a.id).map Order.sz) a.sz ↔
      (runAhead (ns.map Prod.snd) a.id).length ≤ 1 ∨
        ((runAhead (ns.map Prod.snd) a.id).map Order.sz).sum ≤ a.sz := by
  obtain ⟨ns', f, -, hf, -, rfl⟩ := modExec_filled hq hexec hreal hsz h
  have hsub : (runAhead (ns.map Prod.snd) a.id).Sublist (ns.map Prod.snd) := by
    unfold runAhead
    split
    · exact List.takeWhile_sublist _
    · exact List.nil_sublist _
  have hids : ((runAhead (ns.map Prod.snd) a.id).reverse.map Order.id).Nodup := by
    rw [List.map_reverse, List.nodup_reverse]
    exact hq.order_ids.sublist (hsub.map _)
  have hnonneg : ∀ o ∈ (runAhead (ns.map Prod.snd) a.id).reverse, 0 ≤ f o.id := fun o ho =>
    (hf.bounds hq.order_ids hq.order_sizes hsz (mem_runAhead (List.mem_reverse.mp ho)).1).1
  have hfilled : (runAhead (ns.map Prod.snd) a.id).map (fun o => filledFor
      (fillNotes a.px a.txtim f (runAhead (ns.map Prod.snd) a.id).reverse) o.id) =
      (runAhead (ns.map Prod.snd) a.id).map fun o => f o.id := by
    apply List.map_congr_left
    intro o ho
    rw [filledFor_fillNotes hids hnonneg, if_pos]
    rw [List.map_reverse, List.mem_reverse]
    exact List.mem_map_of_mem ho
  rw [hfilled]
  exact hf.from_front_iff hq.order_sizes hsz

theorem front_first_iff_twoSims :
    ∃ q ns q' notes, run step {} twoSims = some (q, []) ∧ Represents q ns ∧
      q.modExec (tradeOf 10) = some (q', notes) ∧
      ((runAhead (ns.map Prod.snd) ⟨3, 11⟩).map (fun o => filledFor notes o.id) =
          allocate ((runAhead (ns.map Prod.snd) ⟨3, 11⟩).map Order.sz) 10 ↔
        (runAhead (ns.map Prod.snd) ⟨3, 11⟩).length ≤ 1 ∨
          ((runAhead (ns.map Prod.snd) ⟨3, 11⟩).map Order.sz).sum ≤ 10) := by
  obtain ⟨q, ns, q', notes, hrun, hq, hexec⟩ := twoSims_traded 10 (by decide +kernel)
  exact ⟨q, ns, q', notes, hrun, hq, hexec,
    front_first_iff hq (a := tradeOf 10) rfl (by decide) (by decide) hexec⟩

/-- A trade of 5 fills the second of two orders of 5; from the front it would fill the first. -/
theorem second_filled_first :
    ∃ q q' notes, run step {} twoSims = some (q, []) ∧ q.modExec (tradeOf 5) = some (q', notes) ∧
      [filledFor notes ⟨xSIM, 1⟩, filledFor notes ⟨xSIM, 2⟩] ≠ allocate [5, 5] 5 := by
  have hfills : ((run step {} twoSims).bind fun r => (r.1.modExec (tradeOf 5)).map fun x =>
      (r.2, [filledFor x.2 ⟨xSIM, 1⟩, filledFor x.2 ⟨xSIM, 2⟩])) = some ([], [0, 5]) := by
    decide +kernel
  obtain ⟨⟨q, out⟩, hrun, hexec⟩ := Option.bind_eq_some_iff.mp hfills
  obtain ⟨⟨q', notes⟩, hexec, heq⟩ := Option.map_eq_some_iff.mp hexec
  obtain ⟨rfl, hfilled⟩ := Prod.mk.inj heq
  exact ⟨q, q', notes, hrun, hexec, by rw [hfilled]; decide⟩

end OrderQ

end KasparHft.OB
