import KasparHft.Allocation
import KasparHft.OrderBookSims
import Mathlib.Algebra.Order.Group.Int

/-!
# What an execution fills

`fill` hands the traded size to our orders ahead of the executed one, from the nearest to the
front: it is the allocation of the size over theirs, and of a queue nothing else changes.
-/

namespace KasparHft.OB

open Allocation

/-! ### One fill -/

/-- The message of a fill of `sz`. -/
def Order.fillNote (o : Order) (px : ℤ) (tim : ℕ) (sz : ℤ) : Note :=
  .fill (o.originator.getD 0) o.id.id o.id.exchid px o.side sz (o.sz - sz) o.owner tim

theorem fillNotify_fillNote {o o' : Order} {sz px : ℤ} {tim : ℕ} {note : Note}
    (h : o.fillNotify sz px tim = some (o', note)) :
    o' = { o with sz := o.sz - sz } ∧ note = o.fillNote px tim sz := by
  obtain ⟨dest, horig, -, -, -, ho', hnote⟩ := fillNotify_eq_some.mp h
  refine ⟨ho', ?_⟩
  rw [hnote, Order.fillNote, horig]
  rfl

/-- An order of ours that has its originator can be filled. -/
theorem exists_fillNotify_order {o : Order} {sz : ℤ} (px : ℤ) (tim : ℕ) (hsim : o.isSim = true)
    (horig : o.originator ≠ none) (hsz : 0 < sz) (hle : sz ≤ o.sz) :
    o.fillNotify sz px tim = some ({ o with sz := o.sz - sz }, o.fillNote px tim sz) := by
  obtain ⟨dest, hdest⟩ := Option.ne_none_iff_exists'.mp horig
  refine fillNotify_eq_some.mpr ⟨dest, hdest, hsim, hsz, hle, rfl, ?_⟩
  rw [Order.fillNote, hdest]
  rfl

/-! ### An allocation of fills -/

/-- What is left of the orders of `q`, filled for `f`. -/
def takenBy (f : LongId → ℤ) (q : List Order) : List Order :=
  (q.filter fun o => decide (f o.id < o.sz)).map fun o => { o with sz := o.sz - f o.id }

/-- One message for each order that is filled. -/
def fillNotes (px : ℤ) (tim : ℕ) (f : LongId → ℤ) (q : List Order) : List Note :=
  (q.filter fun o => decide (0 < f o.id)).map fun o => o.fillNote px tim (f o.id)

section Allocations

variable {f : LongId → ℤ} {q : List Order} {px sz : ℤ} {tim : ℕ}

theorem takenBy_append (f : LongId → ℤ) (q q' : List Order) :
    takenBy f (q ++ q') = takenBy f q ++ takenBy f q' := by
  simp [takenBy]

theorem takenBy_reverse (f : LongId → ℤ) (q : List Order) :
    takenBy f q.reverse = (takenBy f q).reverse := by
  rw [takenBy, takenBy, List.filter_reverse, List.map_reverse]

/-- Orders that get nothing stay as they are. -/
theorem takenBy_of_zero (hq : ∀ o ∈ q, f o.id = 0 ∧ 0 < o.sz) : takenBy f q = q := by
  have hfilter : q.filter (fun o => decide (f o.id < o.sz)) = q := by
    rw [List.filter_eq_self]
    intro o ho
    obtain ⟨hf, hsz⟩ := hq o ho
    simpa [hf] using hsz
  rw [takenBy, hfilter]
  conv_rhs => rw [← List.map_id q]
  apply List.map_congr_left
  intro o ho
  rw [(hq o ho).1, sub_zero]
  rfl

theorem fillNotes_of_zero (hq : ∀ o ∈ q, f o.id = 0) : fillNotes px tim f q = [] := by
  have hfilter : q.filter (fun o => decide (0 < f o.id)) = [] := by
    rw [List.filter_eq_nil_iff]
    intro o ho
    simp [hq o ho]
  rw [fillNotes, hfilter]
  rfl

/-- An order filled for its whole size is taken. -/
theorem takenBy_cons_full {o : Order} (h : f o.id = o.sz) : takenBy f (o :: q) = takenBy f q := by
  simp [takenBy, h]

theorem fillNotes_cons {o : Order} {sz : ℤ} (h : f o.id = sz) (hsz : 0 < sz) :
    fillNotes px tim f (o :: q) = o.fillNote px tim sz :: fillNotes px tim f q := by
  simp [fillNotes, h, hsz]

/-- **`fill` allocates.**  Over orders of ours, `f` being the allocation of the size in turn. -/
theorem fill_allocates {chain left : List Order} {notes : List Note}
    (hsims : ∀ o ∈ chain, o.isSim = true ∧ 0 < o.sz) (hsz : 0 < sz)
    (hf : chain.map (fun o => f o.id) = allocate (chain.map Order.sz) sz)
    (h : fill px tim chain sz = some (left, notes)) :
    left = takenBy f chain ∧ notes = fillNotes px tim f chain := by
  induction chain generalizing sz left notes with
  | nil =>
      cases h
      exact ⟨rfl, rfl⟩
  | cons s prev ih =>
      obtain ⟨⟨hsim, hpos⟩, hprev⟩ := List.forall_mem_cons.mp hsims
      obtain ⟨hs, hrest⟩ := List.cons.inj hf
      -- what is not reached gets nothing
      have hzero : sz - min s.sz sz = 0 → takenBy f prev = prev ∧ fillNotes px tim f prev = [] := by
        intro hleft
        rw [hleft, allocate_zero fun c hc => by
          obtain ⟨o, ho, rfl⟩ := List.mem_map.mp hc
          exact (hprev o ho).2.le, List.map_map] at hrest
        have hnone : ∀ o ∈ prev, f o.id = 0 := List.map_inj_left.mp hrest
        exact ⟨takenBy_of_zero fun o ho => ⟨hnone o ho, (hprev o ho).2⟩,
          fillNotes_of_zero hnone⟩
      cases (fill_cases h).2 with
      | goesOn hle hfill hmore hrest' =>
          rw [min_eq_left hle] at hs hrest
          obtain ⟨-, rfl⟩ := fillNotify_fillNote hfill
          obtain ⟨rfl, rfl⟩ := ih hprev hmore.1 hrest hrest'
          exact ⟨(takenBy_cons_full hs).symm, (fillNotes_cons hs hpos).symm⟩
      | ends hle hfill hstop =>
          rw [min_eq_left hle] at hs hrest hzero
          obtain ⟨-, rfl⟩ := fillNotify_fillNote hfill
          have hdone : takenBy f prev = prev ∧ fillNotes px tim f prev = [] := by
            rcases prev with _ | ⟨p, prev⟩
            · exact ⟨rfl, rfl⟩
            · apply hzero
              have hsimp : p.isSim = true := (hprev p List.mem_cons_self).1
              have hnot : ¬ 0 < sz - s.sz := fun hlt => hstop ⟨hlt, by simp [hsimp]⟩
              omega
          rw [takenBy_cons_full hs, fillNotes_cons hs hpos, hdone.1, hdone.2]
          exact ⟨rfl, rfl⟩
      | inPart hlt hfill =>
          rw [min_eq_right hlt.le] at hs hrest hzero
          obtain ⟨htaken, hnotes⟩ := hzero (sub_self sz)
          obtain ⟨rfl, rfl⟩ := fillNotify_fillNote hfill
          rw [fillNotes_cons hs hsz, hnotes]
          refine ⟨?_, rfl⟩
          rw [show s :: prev = [s] ++ prev from rfl, takenBy_append, htaken]
          simp [takenBy, hs, hlt]

/-- `fill` goes through where the orders of ours have their originators. -/
theorem exists_fill {chain : List Order}
    (hsims : ∀ o ∈ chain, o.isSim = true ∧ 0 < o.sz ∧ o.originator ≠ none) (hsz : 0 < sz)
    (htim : tim ≠ 0) : ∃ r, fill px tim chain sz = some r := by
  induction chain generalizing sz with
  | nil => exact ⟨_, rfl⟩
  | cons s prev ih =>
      obtain ⟨⟨hsim, hpos, horig⟩, hprev⟩ := List.forall_mem_cons.mp hsims
      have hmin : ¬ (min s.sz sz ≤ 0 ∨ s.isSim = false ∨ tim = 0) := by
        simp [hsim, htim, hpos, hsz]
      unfold fill
      rw [if_neg hmin]
      split
      · rw [exists_fillNotify_order px tim hsim horig hpos (le_refl _)]
        dsimp only
        split
        · next hgo =>
          obtain ⟨r, hr⟩ := ih hprev hgo.1
          exact ⟨_, by rw [hr]; rfl⟩
        · exact ⟨_, rfl⟩
      · next hlt =>
        have hlt' : sz < s.sz := not_le.mp hlt
        rw [exists_fillNotify_order px tim hsim horig hsz hlt'.le]
        dsimp only
        rw [if_pos (sub_pos.mpr hlt')]
        exact ⟨_, rfl⟩

end Allocations

/-! ### An execution -/

/-- The unbroken run of our orders ahead of the order `i`, where it is the first real one. -/
def runAhead (q : List Order) (i : LongId) : List Order :=
  if (q.dropWhile Order.isSim).head?.any (fun o => o.id == i) then q.takeWhile Order.isSim else []

theorem mem_runAhead {q : List Order} {i : LongId} {o : Order} (h : o ∈ runAhead q i) :
    o ∈ q ∧ o.isSim = true := by
  unfold runAhead at h
  split at h
  · exact ⟨(List.takeWhile_subset _) h, List.mem_takeWhile_imp h⟩
  · cases h

/-- Any list of values is a function of the keys, if these are different. -/
theorem exists_assignment {κ : Type*} [DecidableEq κ] {ks : List κ} {vs : List ℤ}
    (hnodup : ks.Nodup) (hlen : ks.length = vs.length) :
    ∃ f : κ → ℤ, ks.map f = vs ∧ ∀ k ∉ ks, f k = 0 := by
  induction ks generalizing vs with
  | nil =>
      obtain rfl : vs = [] := List.length_eq_zero_iff.mp hlen.symm
      exact ⟨fun _ => 0, rfl, fun _ _ => rfl⟩
  | cons k ks ih =>
      obtain ⟨v, vs, rfl⟩ := List.exists_cons_of_length_eq_add_one hlen.symm
      obtain ⟨hk, hks⟩ := List.nodup_cons.mp hnodup
      obtain ⟨f, hf, hzero⟩ := ih hks (Nat.succ.inj hlen)
      refine ⟨Function.update f k v, ?_, ?_⟩
      · rw [List.map_cons, Function.update_self, ← hf]
        congr 1
        apply List.map_congr_left
        intro k' hk'
        have hne : k' ≠ k := fun h => hk (h ▸ hk')
        rw [Function.update_of_ne hne]
      · intro k' hk'
        obtain ⟨hne, hnot⟩ := not_or.mp (mt List.mem_cons.mpr hk')
        rw [Function.update_of_ne hne, hzero k' hnot]

/-- What an execution hands to the orders of ours, by id: `sz` allocated over their run, from
    the nearest on. -/
structure FilledBy (q : List Order) (i : LongId) (sz : ℤ) (f : LongId → ℤ) : Prop where
  run : (runAhead q i).reverse.map (fun o => f o.id) =
    allocate ((runAhead q i).reverse.map Order.sz) sz
  rest : ∀ i' ∉ (runAhead q i).map Order.id, f i' = 0

/-- **`doExec` fills the run and leaves the rest.** -/
theorem doExec_allocates {q q' : List Order} {a : ModArgs} {notes : List Note}
    (hsizes : ∀ o ∈ q, 0 < o.sz) (hids : (q.map Order.id).Nodup) (hsz : 0 < a.sz)
    (h : doExec q a = some (q', notes)) :
    ∃ f, FilledBy q a.id a.sz f ∧ q' = takenBy f q ∧
      notes = fillNotes a.px a.txtim f (runAhead q a.id).reverse := by
  have hrunIds : ((runAhead q a.id).reverse.map Order.id).Nodup := by
    rw [List.map_reverse, List.nodup_reverse]
    unfold runAhead
    split
    · exact hids.sublist ((List.takeWhile_sublist _).map _)
    · exact List.nodup_nil
  obtain ⟨f, hf, hrest⟩ := exists_assignment hrunIds
    (show _ = (allocate ((runAhead q a.id).reverse.map Order.sz) a.sz).length by simp)
  have hfilled : FilledBy q a.id a.sz f := by
    refine ⟨?_, fun i hi => hrest i ?_⟩
    · rw [← hf, List.map_map]
      rfl
    · rwa [List.map_reverse, List.mem_reverse]
  have hzero : ∀ o ∈ q, o.id ∉ (runAhead q a.id).map Order.id → f o.id = 0 ∧ 0 < o.sz :=
    fun o ho hnot => ⟨hfilled.rest _ hnot, hsizes o ho⟩
  have hsplit : q.takeWhile Order.isSim ++ q.dropWhile Order.isSim = q :=
    List.takeWhile_append_dropWhile
  refine ⟨f, hfilled, ?_⟩
  unfold doExec at h
  dsimp only at h
  split at h
  · next hfirst =>
    obtain ⟨r, hr, heq⟩ := Option.map_eq_some_iff.mp h
    cases heq
    have hrun : runAhead q a.id = q.takeWhile Order.isSim := if_pos hfirst.1
    have hsims : ∀ o ∈ (q.takeWhile Order.isSim).reverse, o.isSim = true ∧ 0 < o.sz := by
      intro o ho
      rw [List.mem_reverse] at ho
      exact ⟨List.mem_takeWhile_imp ho, hsizes o ((List.takeWhile_subset _) ho)⟩
    obtain ⟨hleft, hnotes⟩ := fill_allocates hsims hsz (hrun ▸ hfilled.run) hr
    refine ⟨?_, hrun ▸ hnotes⟩
    have hbehind : takenBy f (q.dropWhile Order.isSim) = q.dropWhile Order.isSim := by
      apply takenBy_of_zero
      intro o ho
      have hmem : o ∈ q := (List.dropWhile_subset _) ho
      refine hzero o hmem fun hin => ?_
      obtain ⟨o', ho', hid⟩ := List.mem_map.mp hin
      rw [hrun] at ho'
      rw [← hsplit, List.map_append] at hids
      exact (List.nodup_append.mp hids).2.2 _ (List.mem_map_of_mem ho') _
        (List.mem_map_of_mem ho) hid
    rw [hleft, takenBy_reverse, List.reverse_reverse]
    conv_rhs => rw [← hsplit, takenBy_append, hbehind]
  · next hnot =>
    cases h
    have hrun : runAhead q a.id = [] := by
      unfold runAhead
      split
      · next hfirst => exact not_not.mp fun hne => hnot ⟨hfirst, hne⟩
      · rfl
    rw [hrun] at hzero
    refine ⟨(takenBy_of_zero fun o ho => hzero o ho (by simp)).symm, ?_⟩
    rw [hrun]
    rfl

section FilledBy

variable {q : List Order} {i : LongId} {sz : ℤ} {f : LongId → ℤ}

/-- Only orders of the run are filled. -/
theorem FilledBy.mem_run (hf : FilledBy q i sz f) (hids : (q.map Order.id).Nodup) {o : Order}
    (ho : o ∈ q) (hne : f o.id ≠ 0) : o ∈ runAhead q i := by
  have hin : o.id ∈ (runAhead q i).map Order.id := by
    by_contra hnot
    exact hne (hf.rest _ hnot)
  obtain ⟨o', ho', hid⟩ := List.mem_map.mp hin
  rwa [← List.inj_on_of_nodup_map hids (mem_runAhead ho').1 ho hid]

theorem FilledBy.bounds (hf : FilledBy q i sz f) (hids : (q.map Order.id).Nodup)
    (hsizes : ∀ o ∈ q, 0 < o.sz) (hsz : 0 < sz) {o : Order} (ho : o ∈ q) :
    0 ≤ f o.id ∧ f o.id ≤ o.sz := by
  by_cases hzero : f o.id = 0
  · rw [hzero]
    exact ⟨le_refl _, (hsizes o ho).le⟩
  · have hmem : o ∈ (runAhead q i).reverse := List.mem_reverse.mpr (hf.mem_run hids ho hzero)
    have hcaps : ∀ c ∈ (runAhead q i).reverse.map Order.sz, 0 ≤ c := by
      intro c hc
      obtain ⟨o', ho', rfl⟩ := List.mem_map.mp hc
      exact (hsizes o' (mem_runAhead (List.mem_reverse.mp ho')).1).le
    have hall := allocate_bounds hcaps hsz.le
    rw [← hf.run, List.forall₂_map_left_iff, List.forall₂_map_right_iff, List.forall₂_same] at hall
    exact hall o hmem

/-- What is filled in all: the size that traded, or the whole run. -/
theorem FilledBy.total (hf : FilledBy q i sz f) (hids : (q.map Order.id).Nodup)
    (hsizes : ∀ o ∈ q, 0 < o.sz) (hsz : 0 < sz) :
    (q.map fun o => f o.id).sum = min sz ((runAhead q i).map Order.sz).sum := by
  have hcaps : ∀ c ∈ (runAhead q i).reverse.map Order.sz, 0 ≤ c := by
    intro c hc
    obtain ⟨o, ho, rfl⟩ := List.mem_map.mp hc
    exact (hsizes o (mem_runAhead (List.mem_reverse.mp ho)).1).le
  have hrun : ((runAhead q i).map fun o => f o.id).sum =
      min sz ((runAhead q i).map Order.sz).sum := by
    rw [← List.sum_reverse, ← List.map_reverse, hf.run, sum_allocate hcaps hsz.le,
      List.map_reverse, List.sum_reverse]
  rw [← hrun]
  -- the rest of the queue gets nothing
  have hprefix : runAhead q i <+: q := by
    unfold runAhead
    split
    · exact List.takeWhile_prefix _
    · exact List.nil_prefix
  obtain ⟨rest, hrest⟩ := hprefix
  have hzero : (rest.map fun o => f o.id).sum = 0 := by
    apply List.sum_eq_zero
    intro x hx
    obtain ⟨o, ho, rfl⟩ := List.mem_map.mp hx
    apply hf.rest
    intro hin
    obtain ⟨o', ho', hid⟩ := List.mem_map.mp hin
    rw [← hrest, List.map_append] at hids
    exact (List.nodup_append.mp hids).2.2 _ (List.mem_map_of_mem ho') _
      (List.mem_map_of_mem ho) hid
  conv_lhs => rw [← hrest, List.map_append, List.sum_append, hzero, add_zero]

/-- The front of the queue is served first exactly when the order of the run does not matter. -/
theorem FilledBy.from_front_iff (hf : FilledBy q i sz f) (hsizes : ∀ o ∈ q, 0 < o.sz)
    (hsz : 0 < sz) :
    (runAhead q i).map (fun o => f o.id) = allocate ((runAhead q i).map Order.sz) sz ↔
      (runAhead q i).length ≤ 1 ∨ ((runAhead q i).map Order.sz).sum ≤ sz := by
  have hcaps : ∀ c ∈ (runAhead q i).map Order.sz, 0 < c := by
    intro c hc
    obtain ⟨o, ho, rfl⟩ := List.mem_map.mp hc
    exact hsizes o (mem_runAhead ho).1
  have hmap : (runAhead q i).map (fun o => f o.id) =
      (allocate ((runAhead q i).map Order.sz).reverse sz).reverse := by
    rw [← List.map_reverse, ← hf.run, List.map_reverse, List.reverse_reverse]
  rw [hmap, allocate_reverse_iff hcaps hsz, List.length_map]

end FilledBy

/-- An execution goes through where the orders of the run have their originators. -/
theorem exists_doExec {q : List Order} {a : ModArgs} (hsizes : ∀ o ∈ q, 0 < o.sz) (hsz : 0 < a.sz)
    (htim : a.txtim ≠ 0) (horig : ∀ o ∈ runAhead q a.id, o.originator ≠ none) :
    ∃ r, doExec q a = some r := by
  unfold doExec
  dsimp only
  split
  · next hfirst =>
    have hrun : runAhead q a.id = q.takeWhile Order.isSim := if_pos hfirst.1
    have hsims : ∀ o ∈ (q.takeWhile Order.isSim).reverse,
        o.isSim = true ∧ 0 < o.sz ∧ o.originator ≠ none := by
      intro o ho
      rw [List.mem_reverse] at ho
      exact ⟨List.mem_takeWhile_imp ho, hsizes o ((List.takeWhile_subset _) ho),
        horig o (hrun ▸ ho)⟩
    have hfill : ∃ r, fill a.px a.txtim (q.takeWhile Order.isSim).reverse a.sz = some r :=
      exists_fill hsims hsz htim
    obtain ⟨r, hr⟩ := hfill
    rw [hr]
    exact ⟨_, rfl⟩
  · exact ⟨_, rfl⟩

/-! ### What the messages say -/

/-- What a message says is filled of the order `i`. -/
def Note.filled (i : LongId) : Note → ℤ
  | .fill _ id venue _ _ sz _ _ _ => if (⟨venue, id⟩ : LongId) = i then sz else 0
  | _ => 0

/-- What the messages say is filled of the order `i`. -/
def filledFor (notes : List Note) (i : LongId) : ℤ := (notes.map (Note.filled i)).sum

theorem filledFor_fillNotes {f : LongId → ℤ} {q : List Order} {px : ℤ} {tim : ℕ} {i : LongId}
    (hids : (q.map Order.id).Nodup) (hnonneg : ∀ o ∈ q, 0 ≤ f o.id) :
    filledFor (fillNotes px tim f q) i = if i ∈ q.map Order.id then f i else 0 := by
  induction q with
  | nil => rfl
  | cons o q ih =>
      obtain ⟨hnot, hids'⟩ := List.nodup_cons.mp hids
      obtain ⟨ho, hq⟩ := List.forall_mem_cons.mp hnonneg
      have hone : filledFor (fillNotes px tim f [o]) i = if o.id = i then f i else 0 := by
        by_cases hpos : 0 < f o.id
        · have hnote : fillNotes px tim f [o] = [o.fillNote px tim (f o.id)] := by
            simp [fillNotes, hpos]
          rw [hnote]
          change (if o.id = i then f o.id else 0) + 0 = _
          split
          · next hi => rw [hi, add_zero]
          · rfl
        · have hzero : f o.id = 0 := le_antisymm (not_lt.mp hpos) ho
          have hnone : fillNotes px tim f [o] = [] := by simp [fillNotes, hzero]
          rw [hnone]
          split
          · next hi => rw [← hi, hzero]; rfl
          · rfl
      have hsplit : fillNotes px tim f (o :: q) =
          fillNotes px tim f [o] ++ fillNotes px tim f q := by
        unfold fillNotes
        rw [← List.map_append, ← List.filter_append]
        rfl
      have hsum : filledFor (fillNotes px tim f (o :: q)) i =
          filledFor (fillNotes px tim f [o]) i + filledFor (fillNotes px tim f q) i := by
        rw [hsplit]
        unfold filledFor
        rw [List.map_append, List.sum_append]
      rw [hsum, hone, ih hids' hq]
      by_cases hi : o.id = i
      · subst hi
        rw [if_pos rfl, if_neg hnot, List.map_cons, if_pos List.mem_cons_self, add_zero]
      · have hmem : i ∈ (o :: q).map Order.id ↔ i ∈ q.map Order.id := by
          rw [List.map_cons, List.mem_cons]
          exact or_iff_right fun h => hi h.symm
        rw [if_neg hi, zero_add]
        simp only [hmem]

end KasparHft.OB
