import KasparHft.OrderBook

/-!
# What one call on the book can do

One inversion lemma for each function below `add` and `mod`: when it returns, the queues, the
book and the notices are those of one of its branches.  The results on calls start from these.
-/

namespace KasparHft.OB

variable {cfg : Cfg} {b b' : Book} {n : List Note}

/-! ### Orders -/

/-- An order is filled for at most its size. -/
theorem fillNotify_eq_some {o o' : Order} {sz px : ℤ} {tim : ℕ} {note : Note} :
    o.fillNotify sz px tim = some (o', note) ↔
      ∃ dest, o.originator = some dest ∧ o.isSim = true ∧ 0 < sz ∧ sz ≤ o.sz ∧
        o' = { o with sz := o.sz - sz } ∧
        note = .fill dest o.id.id o.id.exchid px o.side sz (o.sz - sz) o.owner tim := by
  unfold Order.fillNotify
  split
  · next horig => simp [horig]
  · next dest horig =>
    split
    · next hguard =>
      obtain ⟨hsim, hsz, hmin⟩ := hguard
      have hle : sz ≤ o.sz := by omega
      simp only [Option.some.injEq, Prod.mk.injEq, if_pos hle, hmin]
      constructor
      · rintro ⟨rfl, rfl⟩
        exact ⟨dest, horig, hsim, hsz, hle, rfl, rfl⟩
      · rintro ⟨dest', horig', -, -, -, rfl, rfl⟩
        rw [horig] at horig'
        cases horig'
        exact ⟨rfl, rfl⟩
    · next hguard =>
      simp only [reduceCtorEq, false_iff]
      rintro ⟨-, -, hsim, hsz, hle, -⟩
      exact hguard ⟨hsim, hsz, min_eq_left hle⟩

/-- A delete leaves nothing of an order, a reduction its new size; its originator is told. -/
theorem cancNotify_some {o : Order} {left : Option Order} {dispSz : ℤ} {modtyp : Mt}
    (h : o.cancNotify dispSz modtyp = some (left, n)) :
    (modtyp = .cancd ∧ left = none ∨
        modtyp = .canc ∧ 0 < dispSz ∧ left = some { o with sz := dispSz }) ∧
      (n = [] ∨ ∃ dest sz, n = [.cancAck dest o.id.id (o.sz - sz) sz]) := by
  unfold Order.cancNotify at h
  split at h
  · cases h
  · obtain ⟨sz', hsz, h⟩ := Option.bind_eq_some_iff.mp h
    dsimp only at h
    have hboth : (if sz' = 0 ∨ modtyp = .cancd then none else some { o with sz := sz' }) = left ∧
        (n = [] ∨ ∃ dest sz, n = [.cancAck dest o.id.id (o.sz - sz) sz]) := by
      split at h
      · cases h
        exact ⟨rfl, .inl rfl⟩
      · split at h
        · cases h
          exact ⟨rfl, .inr ⟨_, _, rfl⟩⟩
        · cases h
    refine ⟨?_, hboth.2⟩
    rw [← hboth.1]
    cases modtyp with
    | cancd => exact .inl ⟨rfl, if_pos (.inr rfl)⟩
    | canc =>
        dsimp only at hsz
        split at hsz
        next hpos =>
          cases hsz
          refine .inr ⟨rfl, hpos, if_neg ?_⟩
          rintro (hzero | hmt)
          · omega
          · cases hmt
        next => cases hsz
    | exec => cases hsz
    | none => cases hsz
    | uni => cases hsz
    | execd => cases hsz

theorem cancNotify_cancd {o : Order} {left : Option Order} {dispSz : ℤ}
    (h : o.cancNotify dispSz .cancd = some (left, n)) : left = none := by
  obtain ⟨-, hleft⟩ | ⟨hmt, -⟩ := (cancNotify_some h).1
  · exact hleft
  · cases hmt

theorem cancNotify_id {o o' : Order} {dispSz : ℤ} {modtyp : Mt}
    (h : o.cancNotify dispSz modtyp = some (some o', n)) : o'.id = o.id := by
  obtain ⟨-, hleft⟩ | ⟨-, -, hleft⟩ := (cancNotify_some h).1
  · cases hleft
  · cases hleft
    rfl

/-! ### Queues -/

/-- `fill` on a queue with `s` next: `s` fills and so does our order before it, `s` fills and
    is the last, or `s` fills in part. -/
inductive Fills (px : ℤ) (tim : ℕ) (s : Order) (prev : List Order) (sz : ℤ) :
    List Order → List Note → Prop
  | goesOn {s' : Order} {note : Note} {left : List Order} {n : List Note} (hle : s.sz ≤ sz)
      (hfill : s.fillNotify s.sz px tim = some (s', note))
      (hmore : 0 < sz - s.sz ∧ prev.head?.any Order.isSim)
      (hrest : fill px tim prev (sz - s.sz) = some (left, n)) :
      Fills px tim s prev sz left (note :: n)
  | ends {s' : Order} {note : Note} (hle : s.sz ≤ sz)
      (hfill : s.fillNotify s.sz px tim = some (s', note))
      (hstop : ¬ (0 < sz - s.sz ∧ prev.head?.any Order.isSim)) :
      Fills px tim s prev sz prev [note]
  | inPart {s' : Order} {note : Note} (hlt : sz < s.sz)
      (hfill : s.fillNotify sz px tim = some (s', note)) :
      Fills px tim s prev sz (s' :: prev) [note]

theorem fill_cases {px sz : ℤ} {tim : ℕ} {s : Order} {prev left : List Order}
    (h : fill px tim (s :: prev) sz = some (left, n)) :
    s.isSim = true ∧ Fills px tim s prev sz left n := by
  unfold fill at h
  split at h
  · cases h
  next hok =>
    have hsim : s.isSim = true := by
      by_contra hnot
      exact hok (.inr (.inl (Bool.eq_false_iff.mpr hnot)))
    refine ⟨hsim, ?_⟩
    split at h
    next hle =>
      split at h
      · cases h
      next s' note hfill =>
        split at h
        next hmore =>
          obtain ⟨⟨left', n'⟩, hrest, heq⟩ := Option.map_eq_some_iff.mp h
          cases heq
          exact .goesOn hle hfill hmore hrest
        next hstop =>
          cases h
          exact .ends hle hfill hstop
    next hlt =>
      split at h
      · cases h
      next s' note hfill =>
        split at h
        · cases h
          exact .inPart (not_le.mp hlt) hfill
        · cases h

/-- `fill_stray_sim_orders` on a queue with `o` next: ours fills, in live the exchange's is
    cancelled, and any other order stays. -/
inductive SweepsQ (cfg : Cfg) (contra : Side) (px : ℤ) (tim : ℕ) (o : Order) (os : List Order) :
    List Order → List Note → ℕ → Prop
  | fills {left os' : List Order} {n n' : List Note} {c : ℕ} (hsim : o.isSim = true)
      (hside : o.side = contra) (hfill : fill px tim [o] o.sz = some (left, n))
      (hrest : sweepQ cfg contra px tim os = some (os', n', c)) :
      SweepsQ cfg contra px tim o os (left ++ os') (n ++ n') c
  | cancels {left : Option Order} {os' : List Order} {n n' : List Note} {c : ℕ}
      (hcanc : cfg.doCrossCheck = false ∧ o.isSim = false ∧ o.side = contra)
      (hnotify : o.cancNotify 0 .cancd = some (left, n))
      (hrest : sweepQ cfg contra px tim os = some (os', n', c)) :
      SweepsQ cfg contra px tim o os os' (n ++ n') (c + 1)
  | stays {os' : List Order} {n : List Note} {c : ℕ} (hfill : ¬ (o.isSim = true ∧ o.side = contra))
      (hcanc : ¬ (cfg.doCrossCheck = false ∧ o.isSim = false ∧ o.side = contra))
      (hrest : sweepQ cfg contra px tim os = some (os', n, c)) :
      SweepsQ cfg contra px tim o os (o :: os') n c

theorem sweepQ_cases {contra : Side} {px : ℤ} {tim c : ℕ} {o : Order} {os q' : List Order}
    (h : sweepQ cfg contra px tim (o :: os) = some (q', n, c)) :
    SweepsQ cfg contra px tim o os q' n c := by
  unfold sweepQ at h
  split at h
  next hours =>
    split at h
    next hfill hrest =>
      cases h
      exact .fills hours.1 hours.2 hfill hrest
    next => cases h
  next hours =>
    split at h
    next hcanc =>
      split at h
      next hnotify hrest =>
        cases h
        obtain rfl := cancNotify_cancd hnotify
        exact .cancels hcanc hnotify hrest
      next => cases h
    next hcanc =>
      obtain ⟨⟨os', n', c'⟩, hrest, heq⟩ := Option.map_eq_some_iff.mp h
      cases heq
      exact .stays hours hcanc hrest

/-- One level of the sweep: its queue is swept, and the loop ends or goes to the next. -/
theorem sweep_cases {contra : Side} {d p : ℤ} {stop : ℤ → Bool} {tim k c : ℕ}
    {qs qs' : ℤ → List Order}
    (h : sweep cfg contra d stop tim (k + 1) p qs = some (qs', n, c)) :
    ∃ q nq cq, sweepQ cfg contra p tim (qs p) = some (q, nq, cq) ∧
      (stop (p + d) = true ∧ qs' = Function.update qs p q ∧ n = nq ∧ c = cq ∨
        ∃ nr cr, stop (p + d) = false ∧ n = nq ++ nr ∧ c = cq + cr ∧
          sweep cfg contra d stop tim k (p + d) (Function.update qs p q) =
            some (qs', nr, cr)) := by
  unfold sweep at h
  split at h
  · cases h
  · split at h
    · cases h
    next q nq cq hq =>
      refine ⟨q, nq, cq, hq, ?_⟩
      dsimp only at h
      split at h
      next hstop =>
        cases h
        exact .inl ⟨hstop, rfl, rfl, rfl⟩
      next hstop =>
        obtain ⟨⟨qs₁, nr, cr⟩, hrest, heq⟩ := Option.map_eq_some_iff.mp h
        cases heq
        exact .inr ⟨nr, cr, Bool.eq_false_iff.mpr hstop, rfl, rfl, hrest⟩

/-! ### `add` -/

theorem newOrder_eq {o o' : Order} (h : newOrder o = some o') : o' = o := by
  unfold newOrder at h
  split at h
  · exact (Option.some.inj h).symm
  · cases h

theorem append_eq {a : AddArgs} (h : b.append a = some b') :
    b' = b.setQ a.side a.px (b.qs a.side a.px ++ [a.order]) := by
  obtain ⟨o, ho, rfl⟩ := Option.map_eq_some_iff.mp h
  rw [newOrder_eq ho]

/-- `fill_stray_sim_orders` sweeps levels of the other side, or leaves it alone. -/
theorem fillStraySimOrders_some {side : Side} {px : ℤ} {txtim c : ℕ}
    (h : b.fillStraySimOrders cfg side px txtim = some (b', n, c)) :
    ∃ qs, b' = { b.setQs side.other qs with numCrossRecover := b.numCrossRecover + c } ∧
      (qs = b.qs side.other ∧ n = [] ∧ c = 0 ∨
        ∃ d stop k p, sweep cfg side.other d stop txtim k p (b.qs side.other) =
          some (qs, n, c)) := by
  obtain ⟨⟨qs, n', c'⟩, hswept, heq⟩ := Option.map_eq_some_iff.mp h
  cases heq
  refine ⟨qs, rfl, ?_⟩
  cases side with
  | buy =>
      dsimp only at hswept
      split at hswept
      · exact .inr ⟨_, _, _, _, hswept⟩
      · cases hswept
        exact .inl ⟨rfl, rfl, rfl⟩
  | sel =>
      dsimp only at hswept
      split at hswept
      · exact .inr ⟨_, _, _, _, hswept⟩
      · cases hswept
        exact .inl ⟨rfl, rfl, rfl⟩

/-- `add`: nothing off the ladder; one of our orders fills on arrival or rests; an order of the
    exchange sweeps the other side, moves the best prices and rests. -/
inductive Enters (cfg : Cfg) (b : Book) (a : AddArgs) : Book → List Note → Prop
  | offLadder (hpx : cfg.maxprice ≤ a.px) : Enters cfg b a b []
  | arrives {px : ℤ} {o : Order} {note : Note} (hid : isSim a.id = true)
      (hpx : a.px < cfg.maxprice) (hat : b.arrivalPx a.side a.px = some px)
      (hfill : a.order.fillNotify a.sz px a.txtim = some (o, note)) : Enters cfg b a b [note]
  | rests {b' : Book} (hid : isSim a.id = true) (hpx : a.px < cfg.maxprice)
      (hnone : b.arrivalPx a.side a.px = none) (happ : b.append a = some b') : Enters cfg b a b' []
  | real {b₁ b₂ b' : Book} {n₁ n₂ : List Note} {c : ℕ} (hid : isSim a.id = false)
      (hpx : a.px < cfg.maxprice)
      (hsweep : b.fillStraySimOrders cfg a.side a.px a.txtim = some (b₁, n₁, c))
      (hbo : b₁.checkForBoChange cfg a.side a.px a.txtim a.venue c = some (b₂, n₂))
      (happ : b₂.append a = some b') : Enters cfg b a b' (n₁ ++ n₂)

theorem add_cases {currtim : ℕ} {a : AddArgs} (h : b.add cfg currtim a = some (b', n)) :
    Enters cfg b a b' n := by
  unfold Book.add at h
  split at h
  · cases h
  · split at h
    next hpx =>
      cases h
      exact .offLadder hpx
    next hpx =>
      have hpx := not_le.mp hpx
      split at h
      · cases h
      · split at h
        next hid =>
          split at h
          · cases h
          · split at h
            next px hat =>
              obtain ⟨o, hnew, h⟩ := Option.bind_eq_some_iff.mp h
              obtain ⟨⟨o', note⟩, hfill, heq⟩ := Option.map_eq_some_iff.mp h
              cases heq
              rw [newOrder_eq hnew] at hfill
              exact .arrives hid hpx hat hfill
            next hnone =>
              obtain ⟨b₁, happ, heq⟩ := Option.map_eq_some_iff.mp h
              cases heq
              exact .rests hid hpx hnone happ
        next hid =>
          obtain ⟨⟨b₁, n₁, c⟩, hsweep, h⟩ := Option.bind_eq_some_iff.mp h
          obtain ⟨⟨b₂, n₂⟩, hbo, h⟩ := Option.bind_eq_some_iff.mp h
          obtain ⟨b₃, happ, heq⟩ := Option.map_eq_some_iff.mp h
          cases heq
          exact .real (Bool.eq_false_iff.mpr hid) hpx hsweep hbo happ

/-! ### `mod` -/

/-- `do_exec` fills our orders ahead of the first real one, or leaves the queue alone. -/
theorem doExec_cases {q q' : List Order} {a : ModArgs} (h : doExec q a = some (q', n)) :
    (q' = q ∧ n = []) ∨
      ∃ l, fill a.px a.txtim (q.takeWhile Order.isSim).reverse a.sz = some (l, n) ∧
        q' = l.reverse ++ q.dropWhile Order.isSim := by
  unfold doExec at h
  dsimp only at h
  split at h
  · obtain ⟨⟨l, n'⟩, hfill, heq⟩ := Option.map_eq_some_iff.mp h
    cases heq
    exact .inr ⟨l, hfill, rfl⟩
  · cases h
    exact .inl ⟨rfl, rfl⟩

/-- `do_canc` takes the order out of the queue, or changes its size there. -/
theorem doCanc_cases {q q' : List Order} {o : Order} {a : ModArgs}
    (h : doCanc q o a = some (q', n)) :
    ∃ left, o.cancNotify a.dispSz a.modtyp = some (left, n) ∧
      (a.modtyp = .cancd ∧ left = none ∧ q' = q.filter (fun x => x.id != o.id) ∨
        a.modtyp = .canc ∧ left = some { o with sz := a.dispSz } ∧
          q' = q.map fun x => if x.id = o.id then { o with sz := a.dispSz } else x) := by
  obtain ⟨⟨left, n'⟩, hcanc, heq⟩ := Option.map_eq_some_iff.mp h
  obtain ⟨⟨hmt, rfl⟩ | ⟨hmt, -, rfl⟩, -⟩ := cancNotify_some hcanc
  · cases heq
    exact ⟨_, hcanc, .inl ⟨hmt, rfl, rfl⟩⟩
  · cases heq
    exact ⟨_, hcanc, .inr ⟨hmt, rfl, rfl⟩⟩

/-- What `mod` does to the queue of the order it has found. -/
theorem modQ_cases {q q' : List Order} {o : Order} {a : ModArgs} (h : modQ q o a = some (q', n)) :
    (a.modtyp = .exec ∧ isSim a.id = false ∧ doExec q a = some (q', n)) ∨
      ((a.modtyp = .canc ∨ a.modtyp = .cancd) ∧ doCanc q o a = some (q', n)) ∨
      (q' = q ∧ n = []) := by
  unfold modQ at h
  split at h
  next hmt =>
    split at h
    next hok => exact .inl ⟨hmt, hok.2, h⟩
    next => cases h
  next hmt => exact .inr (.inl ⟨.inl hmt, h⟩)
  next hmt => exact .inr (.inl ⟨.inr hmt, h⟩)
  next => cases h
  next =>
    cases h
    exact .inr (.inr ⟨rfl, rfl⟩)

/-- `mod`: nothing off the ladder or for an order that is not there; else its queue changes,
    and after an order of the exchange the best price walks. -/
inductive Mods (cfg : Cfg) (b : Book) (a : ModArgs) : Book → List Note → Prop
  | offLadder (hpx : cfg.maxprice ≤ a.px) : Mods cfg b a b []
  | missed {n : List Note} (hpx : a.px < cfg.maxprice)
      (hnone : (b.qs a.side a.px).find? (fun o => o.id == a.id) = none)
      (hnot : notFound a = some n) : Mods cfg b a b n
  | sim {o : Order} {q : List Order} {n : List Note} (hid : isSim a.id = true)
      (hpx : a.px < cfg.maxprice)
      (hfound : (b.qs a.side a.px).find? (fun o => o.id == a.id) = some o)
      (hq : modQ (b.qs a.side a.px) o a = some (q, n)) :
      Mods cfg b a (b.setQ a.side a.px q) n
  | real {o : Order} {q : List Order} {n n' : List Note} {b' : Book} (hid : isSim a.id = false)
      (hpx : a.px < cfg.maxprice)
      (hfound : (b.qs a.side a.px).find? (fun o => o.id == a.id) = some o)
      (hq : modQ (b.qs a.side a.px) o a = some (q, n))
      (hadj : (b.setQ a.side a.px q).adjust cfg a.side a.px a.txtim a.mkt = some (b', n')) :
      Mods cfg b a b' (n ++ n')

theorem mod_cases {a : ModArgs} (h : b.mod cfg a = some (b', n)) : Mods cfg b a b' n := by
  unfold Book.mod at h
  split at h
  · cases h
  · split at h
    next hpx =>
      cases h
      exact .offLadder hpx
    next hpx =>
      split at h
      · cases h
      · dsimp only at h
        split at h
        next hnone =>
          obtain ⟨n', hnot, heq⟩ := Option.map_eq_some_iff.mp h
          cases heq
          exact .missed (not_le.mp hpx) hnone hnot
        next o hfound =>
          obtain ⟨⟨q, n₁⟩, hq, h⟩ := Option.bind_eq_some_iff.mp h
          dsimp only at h
          split at h
          next hid =>
            cases h
            exact .sim hid (not_le.mp hpx) hfound hq
          next hid =>
            obtain ⟨⟨b₁, n₂⟩, hadj, heq⟩ := Option.map_eq_some_iff.mp h
            cases heq
            exact .real (Bool.eq_false_iff.mpr hid) (not_le.mp hpx) hfound hq hadj

theorem id_of_found {q : List Order} {o : Order} {id : LongId}
    (h : q.find? (fun o => o.id == id) = some o) : o.id = id := by
  simpa using List.find?_some h

theorem isSim_of_found {q : List Order} {o : Order} {id : LongId}
    (h : q.find? (fun o => o.id == id) = some o) : o.isSim = isSim id := by
  rw [Order.isSim, id_of_found h]

end KasparHft.OB
