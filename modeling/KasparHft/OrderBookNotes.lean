import KasparHft.OrderBookCalls

/-!
# What the book tells

Only `clear` tells that the book is cleared, and it does so first and once.  All else that
the book tells are replies to originators and changes of the best prices, which carry a
market time: `BBBOChg` asserts it.
-/

namespace KasparHft.OB

/-- A reply, or a change of the best prices with a market time. -/
def Note.Plain : Note → Prop
  | .clear => False
  | .bbboChg txTime .. => txTime ≠ 0
  | .fill .. | .cancAck .. | .cancReject .. => True

theorem plain_nil : ∀ n ∈ ([] : List Note), n.Plain := fun _ hn => (List.not_mem_nil hn).elim

theorem plain_append {n n' : List Note} (h : ∀ x ∈ n, x.Plain) (h' : ∀ x ∈ n', x.Plain) :
    ∀ x ∈ n ++ n', x.Plain :=
  List.forall_mem_append.mpr ⟨h, h'⟩

/-! ### Orders and queues -/

theorem fillNotify_plain {o o' : Order} {sz px : ℤ} {tim : ℕ} {n : Note}
    (h : o.fillNotify sz px tim = some (o', n)) : n.Plain := by
  obtain ⟨dest, -, -, -, -, -, rfl⟩ := fillNotify_eq_some.mp h
  exact trivial

theorem fill_plain {px : ℤ} {tim : ℕ} {l l' : List Order} {sz : ℤ} {n : List Note}
    (h : fill px tim l sz = some (l', n)) : ∀ x ∈ n, x.Plain := by
  induction l generalizing sz l' n with
  | nil =>
      cases h
      exact plain_nil
  | cons s prev ih =>
      cases (fill_cases h).2 with
      | goesOn _ hfill _ hrest =>
          exact List.forall_mem_cons.mpr ⟨fillNotify_plain hfill, ih hrest⟩
      | ends _ hfill _ =>
          exact List.forall_mem_cons.mpr ⟨fillNotify_plain hfill, plain_nil⟩
      | inPart _ hfill =>
          exact List.forall_mem_cons.mpr ⟨fillNotify_plain hfill, plain_nil⟩

theorem cancNotify_plain {o : Order} {o' : Option Order} {dispSz : ℤ} {modtyp : Mt}
    {n : List Note} (h : o.cancNotify dispSz modtyp = some (o', n)) : ∀ x ∈ n, x.Plain := by
  obtain ⟨-, rfl | ⟨dest, sz, rfl⟩⟩ := cancNotify_some h
  · exact plain_nil
  · exact List.forall_mem_singleton.mpr trivial

theorem sweepQ_plain {cfg : Cfg} {contra : Side} {px : ℤ} {tim c : ℕ} {q q' : List Order}
    {n : List Note} (h : sweepQ cfg contra px tim q = some (q', n, c)) : ∀ x ∈ n, x.Plain := by
  induction q generalizing q' n c with
  | nil =>
      cases h
      exact plain_nil
  | cons o os ih =>
      cases sweepQ_cases h with
      | fills _ _ hfill hrest => exact plain_append (fill_plain hfill) (ih hrest)
      | cancels _ hnotify hrest =>
          exact plain_append (cancNotify_plain hnotify) (ih hrest)
      | stays _ _ hrest => exact ih hrest

theorem sweep_plain {cfg : Cfg} {contra : Side} {d : ℤ} {stop : ℤ → Bool} {tim k c : ℕ} {p : ℤ}
    {qs qs' : ℤ → List Order} {n : List Note}
    (h : sweep cfg contra d stop tim k p qs = some (qs', n, c)) : ∀ x ∈ n, x.Plain := by
  induction k generalizing p qs qs' n c with
  | zero =>
      cases h
      exact plain_nil
  | succ k ih =>
      obtain ⟨q, nq, cq, hq, ⟨-, -, rfl, -⟩ | ⟨nr, cr, -, rfl, -, hrest⟩⟩ := sweep_cases h
      · exact sweepQ_plain hq
      · exact plain_append (sweepQ_plain hq) (ih hrest)

/-! ### Calls -/

theorem notifybbbosubs_plain {b b' : Book} {txtim : ℕ} {side : Side} {venue : ℕ} {n : List Note}
    (h : b.notifybbbosubs txtim side venue = some (b', n)) : ∀ x ∈ n, x.Plain := by
  unfold Book.notifybbbosubs at h
  split_ifs at h with hrecent hcrossed hnobody htim
  · cases h
    exact plain_nil
  · cases h
    exact plain_nil
  · cases h
    exact plain_nil
  · cases h
    exact List.forall_mem_singleton.mpr htim

theorem fillStray_plain {cfg : Cfg} {b b' : Book} {side : Side} {px : ℤ} {txtim c : ℕ}
    {n : List Note} (h : b.fillStraySimOrders cfg side px txtim = some (b', n, c)) :
    ∀ x ∈ n, x.Plain := by
  obtain ⟨qs, -, ⟨-, rfl, -⟩ | ⟨d, stop, k, p, hswept⟩⟩ := fillStraySimOrders_some h
  · exact plain_nil
  · exact sweep_plain hswept

theorem checkForBoChange_plain {cfg : Cfg} {b b' : Book} {side : Side} {px : ℤ}
    {txtim venue uncrossed : ℕ} {n : List Note}
    (h : b.checkForBoChange cfg side px txtim venue uncrossed = some (b', n)) :
    ∀ x ∈ n, x.Plain := by
  have hnotify := @notifybbbosubs_plain
  unfold Book.checkForBoChange at h
  grind

theorem add_plain {cfg : Cfg} {b b' : Book} {currtim : ℕ} {a : AddArgs} {n : List Note}
    (h : b.add cfg currtim a = some (b', n)) : ∀ x ∈ n, x.Plain := by
  cases add_cases h with
  | offLadder _ => exact plain_nil
  | arrives _ _ _ hfill =>
      exact List.forall_mem_cons.mpr ⟨fillNotify_plain hfill, plain_nil⟩
  | rests _ _ _ _ => exact plain_nil
  | real _ _ hsweep hbo _ =>
      exact plain_append (fillStray_plain hsweep) (checkForBoChange_plain hbo)

theorem modQ_plain {q q' : List Order} {o : Order} {a : ModArgs} {n : List Note}
    (h : modQ q o a = some (q', n)) : ∀ x ∈ n, x.Plain := by
  obtain ⟨-, -, hexec⟩ | ⟨-, hcanc⟩ | ⟨-, rfl⟩ := modQ_cases h
  · obtain ⟨-, rfl⟩ | ⟨l, hfill, -⟩ := doExec_cases hexec
    · exact plain_nil
    · exact fill_plain hfill
  · obtain ⟨left, hnotify, -⟩ := doCanc_cases hcanc
    exact cancNotify_plain hnotify
  · exact plain_nil

theorem adjust_plain {cfg : Cfg} {b b' : Book} {side : Side} {px : ℤ} {txtim mkt : ℕ}
    {n : List Note} (h : b.adjust cfg side px txtim mkt = some (b', n)) : ∀ x ∈ n, x.Plain := by
  have hnotify := @notifybbbosubs_plain
  unfold Book.adjust at h
  grind

theorem notFound_plain {a : ModArgs} {n : List Note} (h : notFound a = some n) :
    ∀ x ∈ n, x.Plain := by
  unfold notFound at h
  split at h
  · split at h
    · obtain ⟨dest, -, rfl⟩ := Option.map_eq_some_iff.mp h
      exact List.forall_mem_singleton.mpr trivial
    · cases h
  · split at h
    · cases h
    · cases h
      exact plain_nil

theorem mod_plain {cfg : Cfg} {b b' : Book} {a : ModArgs} {n : List Note}
    (h : b.mod cfg a = some (b', n)) : ∀ x ∈ n, x.Plain := by
  cases mod_cases h with
  | offLadder _ => exact plain_nil
  | missed _ _ hnot => exact notFound_plain hnot
  | sim _ _ _ hq => exact modQ_plain hq
  | real _ _ _ hq hadj => exact plain_append (modQ_plain hq) (adjust_plain hadj)

/-- **Only `clear`** tells that the book is cleared, and a change of the best prices carries a
    market time. -/
theorem step_plain {cfg : Cfg} {b b' : Book} {c : Call} {n : List Note} (hc : c ≠ .clear)
    (h : step cfg b c = some (b', n)) : ∀ x ∈ n, x.Plain := by
  cases c with
  | add currtim a => exact add_plain h
  | mod a => exact mod_plain h
  | clear => exact absurd rfl hc

/-! ### The clear -/

theorem forall_of_mapM {α β : Type*} {f : α → Option β} {P : β → Prop}
    (hP : ∀ x y, f x = some y → P y) {l : List α} {ys : List β} (h : l.mapM f = some ys) :
    ∀ y ∈ ys, P y := by
  induction l generalizing ys with
  | nil =>
      cases h
      exact fun y hy => (List.not_mem_nil hy).elim
  | cons x l ih =>
      rw [List.mapM_cons] at h
      obtain ⟨y, hy, h⟩ := Option.bind_eq_some_iff.mp h
      obtain ⟨ys', hys, heq⟩ := Option.bind_eq_some_iff.mp h
      cases heq
      exact List.forall_mem_cons.mpr ⟨hP x y hy, ih hys⟩

theorem cancNotifyAll_plain {q : List Order} {n : List Note}
    (h : cancNotifyAll q = some n) : ∀ x ∈ n, x.Plain := by
  obtain ⟨ns, hns, rfl⟩ := Option.map_eq_some_iff.mp h
  have hall : ∀ n ∈ ns, ∀ x ∈ n, x.Plain := by
    refine forall_of_mapM (fun o n hn => ?_) hns
    obtain ⟨⟨o', n'⟩, hnotify, rfl⟩ := Option.map_eq_some_iff.mp hn
    exact cancNotify_plain hnotify
  intro x hx
  obtain ⟨n, hn, hmem⟩ := List.mem_flatten.mp hx
  exact hall n hn x hmem

/-- **`clear`** tells first that the book is cleared, then the replies. -/
theorem clear_notes {cfg : Cfg} {b b' : Book} {n : List Note} (h : b.clear cfg = some (b', n)) :
    ∃ rest, n = .clear :: rest ∧ ∀ x ∈ rest, x.Plain := by
  obtain ⟨bids, hbids, h⟩ := Option.bind_eq_some_iff.mp h
  obtain ⟨asks, hasks, heq⟩ := Option.map_eq_some_iff.mp h
  cases heq
  refine ⟨_, rfl, plain_append ?_ ?_⟩
  · intro x hx
    obtain ⟨n, hn, hmem⟩ := List.mem_flatten.mp hx
    exact forall_of_mapM (fun _ _ => cancNotifyAll_plain) hbids n hn x hmem
  · intro x hx
    obtain ⟨n, hn, hmem⟩ := List.mem_flatten.mp hx
    exact forall_of_mapM (fun _ _ => cancNotifyAll_plain) hasks n hn x hmem

end KasparHft.OB
