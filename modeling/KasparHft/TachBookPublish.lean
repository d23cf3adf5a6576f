import KasparHft.TachBookSums

/-!
# What a subscriber holds

A high-priority subscriber empties its copy on a Clear and replaces it with the point of
every EndOfBurst.  A point equal to the last one published is not sent again; a channel
reset sends a Clear and leaves that last point where it is, so a book that is rebuilt to it
is not sent at all.

Where no reset is followed by the point that was published before it, the subscriber holds
the point of the book whenever that point is valid.
-/

namespace KasparHft.TachBook

open FillSlate Machine

variable {Px : Type} {ops : PriceOps Px} {s s' : State Px} {view : Option Point}

/-! ### The copy -/

/-- What a message does to a subscriber's copy. -/
def Out.shown (view : Option Point) : Out Px → Option Point
  | .endOfBurst _ pt => some pt
  | .clear => none
  | .tradeNotify _ | .endOfBurst2 .. | .bbboChg .. | .gapDetected => view

/-- The copy after one more message to the book. -/
def noteView (ops : PriceOps Px) (s : State Px) (e : Event Px) (view : Option Point) :
    Option Point :=
  match step ops s e with
  | none => view
  | some (_, o) => o.foldl Out.shown view

/-- The book with the copy of a subscriber. -/
abbrev viewStep (ops : PriceOps Px) := withGhost (step ops) (noteView ops)

/-- When the point of the book is valid, the subscriber holds it. -/
def Shows (s : State Px) (view : Option Point) : Prop :=
  s.toBook.createPoint.baddata = false → view = some s.toBook.createPoint

/-- Live records: no snapshot record. -/
def Event.IsLive : Event Px → Prop
  | .data _ (.mbo m) => m.recovery = false
  | _ => True

instance : ∀ e : Event Px, Decidable e.IsLive
  | .data _ (.mbo m) => inferInstanceAs (Decidable (m.recovery = false))
  | .data _ (.mboTrd _) | .data _ .chr | .data _ .gap | .data _ .other | .setExSymId _ | .bbboSub
  | .shutdown => inferInstanceAs (Decidable True)

/-- A record does not leave a valid point equal to `prev`. -/
def NotPrev (prev : Option Point) : Option (Book Px × Option (Payload Px)) → Prop
  | some (b, some _) => b.createPoint.baddata = false → prev.any b.createPoint.fastCompare = false
  | _ => True

/-- While the subscriber's copy is empty, the record does not bring the book to the point
    last published. -/
def NotRebuilt (ops : PriceOps Px) (s : State Px) (view : Option Point) : Event Px → Prop
  | .data a (.mbo m) =>
      s.Reads a m → view = none → NotPrev s.prevPl (s.toBook.applyMbo ops m)
  | _ => True

instance (prev : Option Point) : ∀ r : Option (Book Px × Option (Payload Px)),
    Decidable (NotPrev prev r)
  | some (_, some _) => inferInstanceAs (Decidable (_ → _))
  | some (_, none) | none => inferInstanceAs (Decidable True)

instance (ops : PriceOps Px) (s : State Px) (view : Option Point) :
    ∀ e, Decidable (NotRebuilt ops s view e)
  | .data a (.mbo m) =>
      inferInstanceAs (Decidable (s.Reads a m → view = none →
        NotPrev s.prevPl (s.toBook.applyMbo ops m)))
  | .data _ (.mboTrd _) | .data _ .chr | .data _ .gap | .data _ .other | .setExSymId _ | .bbboSub
  | .shutdown => inferInstanceAs (Decidable True)

/-- Messages that are neither a point nor a Clear leave the copy. -/
def Unshown (o : List (Out Px)) : Prop := ∀ x ∈ o, ∀ view, Out.shown view x = view

theorem Unshown.foldl {o : List (Out Px)} (h : Unshown o) (view : Option Point) :
    o.foldl Out.shown view = view := by
  induction o generalizing view with
  | nil => rfl
  | cons x o ih =>
      obtain ⟨hx, ho⟩ := List.forall_mem_cons.mp h
      rw [List.foldl_cons, hx view]
      exact ih ho view

theorem unshown_released (fs : List (Released Px (Payload Px))) :
    Unshown (fs.flatMap releaseFill) := by
  intro x hx view
  obtain ⟨f, -, hx⟩ := List.mem_flatMap.mp hx
  unfold releaseFill at hx
  split at hx
  · exact (List.not_mem_nil hx).elim
  · rw [List.mem_singleton.mp hx]
    rfl

/-! ### Points -/

theorem fastCompare_eq {p q : Point} (h : p.fastCompare q = true) (hbad : p.baddata = q.baddata) :
    p = q := by
  unfold Point.fastCompare at h
  simp only [Bool.and_eq_true, beq_iff_eq] at h
  obtain ⟨⟨⟨hbids, hasks⟩, hbidSz⟩, haskSz⟩ := h
  cases p
  cases q
  simp only at hbids hasks hbidSz haskSz hbad
  rw [hbids, hasks, hbidSz, haskSz, hbad]

theorem createPoint_congr {b b' : Book Px} (hbid : b'.bid = b.bid) (hask : b'.ask = b.ask) :
    b'.createPoint = b.createPoint := by
  unfold Book.createPoint
  rw [hbid, hask]

theorem createPoint_empty : ({} : Book Px).createPoint.baddata = true := by
  have hask : (OrderBookSide.empty .sel).best = invalidAsk := rfl
  unfold Book.createPoint
  rw [if_pos (.inl hask)]

/-- A record without a payload leaves the levels. -/
theorem applyMbo_none {b b' : Book Px} {m : Mbo Px} (h : b.applyMbo ops m = some (b', none)) :
    b'.createPoint = b.createPoint := by
  unfold Book.applyMbo at h
  split at h
  · unfold Book.add at h
    split at h
    · cases h
    · obtain ⟨pl, -, heq⟩ := Option.map_eq_some_iff.mp h
      cases heq
  · split at h
    · unfold Book.canc at h
      split at h
      · cases h
        rfl
      · obtain ⟨b₁, -, h⟩ := Option.bind_eq_some_iff.mp h
        split at h
        · cases h
        · obtain ⟨pl, -, heq⟩ := Option.map_eq_some_iff.mp h
          cases heq
    · split at h
      · unfold Book.cancd at h
        split at h
        · cases h
          rfl
        · dsimp only at h
          split at h
          · cases h
            exact createPoint_congr rfl rfl
          · split at h
            · obtain ⟨pl, -, heq⟩ := Option.map_eq_some_iff.mp h
              cases heq
            · cases h
      · cases h
        rfl

/-! ### Publishing -/

/-- What `publish_book` does: nothing for a bad point or an unchanged one, else the point is
    sent and kept. -/
theorem publishBook_cases {pl : Payload Px} {o : List (Out Px)}
    (h : s.publishBook pl = some (s', o)) :
    (s.toBook.createPoint.baddata = true ∧ s' = s ∧ o = []) ∨
      (s.toBook.createPoint.baddata = false ∧
        s.prevPl.any s.toBook.createPoint.fastCompare = true ∧ s' = s ∧ o = []) ∨
      (s.toBook.createPoint.baddata = false ∧ s'.toBook = s.toBook ∧
        s'.prevPl = some s.toBook.createPoint ∧
        ∀ view, o.foldl Out.shown view = some s.toBook.createPoint) := by
  unfold State.publishBook at h
  dsimp only at h
  split at h
  next hbad =>
    cases h
    exact .inl ⟨hbad, rfl, rfl⟩
  next hgood =>
    rw [Bool.not_eq_true] at hgood
    right
    split at h
    next hsame =>
      cases h
      exact .inl ⟨hgood, hsame, rfl, rfl⟩
    next hnew =>
      right
      generalize hbursts : (if (s.eobCounter + 1) % 4 = 0 then
          [Out.endOfBurst2 pl.tim s.bid.best s.ask.best (toInt32 (s.bid.getSz s.bid.best))
            (toInt32 (s.ask.getSz s.ask.best)) pl.mev pl.action pl.side] else []) = burst2 at h
      have hburst2 : Unshown burst2 := by
        rw [← hbursts]
        split
        · intro x hx view
          rw [List.mem_singleton.mp hx]
          rfl
        · exact fun x hx => (List.not_mem_nil hx).elim
      split at h
      next hbest =>
        split at h
        · cases h
        next hsubs =>
          cases h
          refine ⟨hgood, rfl, rfl, fun view => ?_⟩
          rw [List.foldl_append, List.foldl_append, hburst2.foldl]
          split <;> rfl
      next hbest =>
        cases h
        refine ⟨hgood, rfl, rfl, fun view => ?_⟩
        rw [List.foldl_append, hburst2.foldl]
        rfl

/-! ### Steps -/

/-- The subscriber holds the last point published or nothing, and holds the point of the book
    when it is valid. -/
structure Viewed (s : State Px) (view : Option Point) : Prop where
  prev : ∀ pt ∈ s.prevPl, pt.baddata = false
  held : view = none ∨ view = s.prevPl
  shows : Shows s view

theorem viewed_new : Viewed ({} : State Px) none where
  prev pt hpt := (Option.not_mem_none pt hpt).elim
  held := .inl rfl
  shows hgood := by
    rw [createPoint_empty] at hgood
    cases hgood

/-- What neither the levels nor the last point see. -/
theorem Viewed.congr (h : Viewed s view) (hpoint : s'.toBook.createPoint = s.toBook.createPoint)
    (hprev : s'.prevPl = s.prevPl) : Viewed s' view := by
  refine ⟨?_, ?_, ?_⟩
  · rw [hprev]
    exact h.prev
  · rw [hprev]
    exact h.held
  · unfold Shows
    rw [hpoint]
    exact h.shows

/-- After a payload the subscriber holds the point, unless its copy is empty and the point is
    the last one published. -/
theorem publish_viewed {pl : Payload Px} {o : List (Out Px)}
    (hprev : ∀ pt ∈ s.prevPl, pt.baddata = false) (hheld : view = none ∨ view = s.prevPl)
    (hsafe : view = none → s.toBook.createPoint.baddata = false →
      s.prevPl.any s.toBook.createPoint.fastCompare = false)
    (h : s.publishBook pl = some (s', o)) : Viewed s' (o.foldl Out.shown view) := by
  rcases publishBook_cases h with ⟨hbad, rfl, rfl⟩ | ⟨hgood, hsame, rfl, rfl⟩ |
    ⟨hgood, hbook, hkept, hshown⟩
  · refine ⟨hprev, hheld, ?_⟩
    intro hgood
    rw [hbad] at hgood
    cases hgood
  · refine ⟨hprev, hheld, fun _ => ?_⟩
    obtain ⟨pt, hpt, heq⟩ := (Option.any_eq_true _ _).mp hsame
    have hpoint := fastCompare_eq heq (hgood.trans (hprev pt hpt).symm)
    rcases hheld with hnone | hheld
    · rw [hsafe hnone hgood] at hsame
      cases hsame
    · rw [List.foldl_nil, hheld, hpt, hpoint]
  · refine ⟨?_, ?_, ?_⟩
    · rw [hkept]
      rintro pt hpt
      cases hpt
      exact hgood
    · rw [hshown, hkept]
      exact .inr rfl
    · rw [hshown]
      intro _
      rw [hbook]

/-- A live record of the book's instrument, as far as the levels and the points go. -/
theorem onMbo_live {m : Mbo Px} {o : List (Out Px)} (hsec : m.securityID = s.secId)
    (hlive : m.recovery = false) (h : s.onMbo ops m = some (s', o)) :
    ∃ b pl slate, ∃ fs : List (Released Px (Payload Px)),
      s.toBook.applyMbo ops m = some (b, pl) ∧
      match pl with
      | none => s' = { s with toBook := b, fillSlate := slate } ∧ o = fs.flatMap releaseFill
      | some pl => ∃ o', { s with toBook := b, fillSlate := slate }.publishBook pl = some (s', o') ∧
          o = fs.flatMap releaseFill ++ o' := by
  unfold State.onMbo at h
  rw [if_neg (not_not_intro hsec), hlive] at h
  simp only [Bool.false_eq_true, if_false] at h
  split at h
  · cases h
  next b pl happly =>
    rcases pl with _ | pl
    · cases h
      exact ⟨b, none, _, _, happly, rfl, rfl⟩
    · obtain ⟨⟨t, o'⟩, hpublish, heq⟩ := Option.map_eq_some_iff.mp h
      cases heq
      exact ⟨b, some pl, _, _, happly, o', hpublish, rfl⟩

theorem mbo_viewed {a : Asset} {m : Mbo Px} {o : List (Out Px)} (hv : Viewed s view)
    (hread : s.Reads a m) (hlive : m.recovery = false)
    (hsafe : NotRebuilt ops s view (.data a (.mbo m)))
    (h : (s.latch a).onMbo ops m = some (s', o)) : Viewed s' (o.foldl Out.shown view) := by
  obtain ⟨b, pl, slate, fs, happly, hrest⟩ := onMbo_live hread.2 hlive h
  have hbook : s.toBook.applyMbo ops m = some (b, pl) := happly
  cases pl with
  | none =>
      obtain ⟨rfl, rfl⟩ := hrest
      rw [(unshown_released fs).foldl]
      exact hv.congr (applyMbo_none happly) rfl
  | some pl =>
      obtain ⟨o', hpublish, rfl⟩ := hrest
      rw [List.foldl_append, (unshown_released fs).foldl]
      refine publish_viewed ?_ ?_ ?_ hpublish
      · exact hv.prev
      · exact hv.held
      intro hnone
      have hnot := hsafe hread hnone
      rw [hbook] at hnot
      exact hnot

/-- A channel reset empties both the book and the copy. -/
theorem chr_viewed (hv : Viewed s view) : Viewed s.onChr.1 (s.onChr.2.foldl Out.shown view) := by
  unfold State.onChr
  dsimp only
  rw [List.foldl_append, (unshown_released _).foldl]
  refine ⟨hv.prev, .inl rfl, ?_⟩
  intro hgood
  have hbad : ({} : Book Px).createPoint.baddata = false := hgood
  rw [createPoint_empty] at hbad
  cases hbad

theorem trd_viewed {t : MboTrd} {o : List (Out Px)} (hv : Viewed s view)
    (h : s.onTrd ops t = some (s', o)) : Viewed s' (o.foldl Out.shown view) := by
  unfold State.onTrd at h
  dsimp only at h
  split at h
  · cases h
    rw [(unshown_released _).foldl]
    exact hv.congr rfl rfl
  · obtain ⟨pl, -, heq⟩ := Option.map_eq_some_iff.mp h
    cases heq
    rw [(unshown_released _).foldl]
    exact hv.congr rfl rfl

/-- **The step lemma.** -/
theorem step_viewed {e : Event Px} {o : List (Out Px)} (hv : Viewed s view) (hlive : e.IsLive)
    (hsafe : NotRebuilt ops s view e) (h : step ops s e = some (s', o)) :
    Viewed s' (o.foldl Out.shown view) := by
  cases e with
  | data a l3 =>
      have hlatch : Viewed (s.latch a) view := hv.congr rfl rfl
      unfold step State.dataHandler at h
      dsimp only at h
      split at h
      next hscale =>
        cases h
        exact hlatch
      next hscale =>
        rw [Bool.not_eq_false] at hscale
        cases l3 with
        | mbo m =>
            by_cases hsec : m.securityID = (s.latch a).secId
            · exact mbo_viewed hv ⟨hscale, hsec⟩ hlive hsafe h
            · have hother := onMbo_of_ne ops hsec
              dsimp only at h
              rw [hother] at h
              cases h
              exact hlatch
        | mboTrd t => exact trd_viewed hlatch h
        | chr =>
            cases h
            exact chr_viewed hlatch
        | gap =>
            cases h
            exact hlatch
        | other =>
            cases h
            exact hlatch
  | setExSymId id =>
      cases h
      exact hv.congr rfl rfl
  | bbboSub =>
      cases h
      exact hv.congr rfl rfl
  | shutdown =>
      cases h
      rw [(unshown_released _).foldl]
      exact hv.congr rfl rfl

/-! ### Runs -/

/-- A record that brings the book to the point last published is applied and not sent. -/
theorem step_rebuilt {a : Asset} {m : Mbo Px} {b : Book Px} {pl : Payload Px}
    (hread : s.Reads a m) (hlive : m.recovery = false)
    (happly : s.toBook.applyMbo ops m = some (b, some pl)) (hgood : b.createPoint.baddata = false)
    (hsame : s.prevPl.any b.createPoint.fastCompare = true) :
    ∃ s', ∃ fs : List (Released Px (Payload Px)),
      step ops s (.data a (.mbo m)) = some (s', fs.flatMap releaseFill) ∧ s'.toBook = b := by
  obtain ⟨hscale, hsec⟩ := hread
  have hpublish : ∀ t : State Px, t.toBook = b → t.prevPl = s.prevPl →
      t.publishBook pl = some (t, []) := by
    intro t hbook hprev
    unfold State.publishBook
    dsimp only
    rw [hbook, hprev, hgood]
    exact if_pos hsame
  have hbook : (s.latch a).toBook.applyMbo ops m = some (b, some pl) := happly
  have hon : ¬ (s.latch a).haveScale = false := by
    rw [hscale]
    decide
  unfold step State.dataHandler State.onMbo
  dsimp only
  rw [if_neg hon, if_neg (not_not_intro hsec), hlive, hbook]
  simp only [Bool.false_eq_true, if_false]
  generalize (s.latch a).fillSlate.onBook ops.samePx m.orderID m.transactTime m.orderUpdateAction
    m.pxd = r
  obtain ⟨slate, fs⟩ := r
  have hsent := hpublish { s.latch a with toBook := b, fillSlate := slate } rfl rfl
  refine ⟨{ s.latch a with toBook := b, fillSlate := slate }, fs, ?_, rfl⟩
  dsimp only at hsent ⊢
  rw [hsent, Option.map_some, List.append_nil]

/-- **A subscriber holds the point of the book whenever it is valid**, in every state of a run
    of live records, exactly when no record rebuilds the last point published while the
    subscriber's copy is empty. -/
theorem view_current_iff (ops : PriceOps Px) (es : List (Event Px)) (hlive : ∀ e ∈ es, e.IsLive) :
    (∀ past rest s view out, es = past ++ rest →
        run (viewStep ops) ({}, none) past = some ((s, view), out) → Shows s view) ↔
      AllSteps (viewStep ops) (fun sv e => NotRebuilt ops sv.1 sv.2 e) ({}, none) es := by
  constructor
  · intro hshows
    apply allSteps_of_reached
    rintro past e rest ⟨s, view⟩ out hes hrun
    cases e with
    | data a l3 =>
        cases l3 with
        | mbo m =>
            intro hread hnone
            have hm : m.recovery = false := hlive (.data a (.mbo m)) (by simp [hes])
            rcases happly : s.toBook.applyMbo ops m with _ | ⟨b, _ | pl⟩
            · trivial
            · trivial
            · intro hgood
              by_contra hsame
              rw [Bool.not_eq_false] at hsame
              -- the record is not sent, and the copy stays empty
              obtain ⟨s', fs, hstep, hbook⟩ := step_rebuilt hread hm happly hgood hsame
              have hview : noteView ops s (.data a (.mbo m)) view = none := by
                unfold noteView
                rw [hstep]
                exact ((unshown_released fs).foldl view).trans hnone
              have hnext := run_concat.mpr
                ⟨(s, view), out, _, hrun, withGhost_eq_some.mpr ⟨hstep, hview.symm⟩, rfl⟩
              have hafter := hshows _ rest s' none _ (by simp [hes]) hnext
              have hheld := hafter (by rw [hbook]; exact hgood)
              cases hheld
        | _ => trivial
    | _ => trivial
  · intro hsafe past rest s view out hes hrun
    subst hes
    have hlive' : AllSteps (viewStep ops) (fun _ e => e.IsLive) ({}, none) past :=
      allSteps_of_forall (fun e he => hlive e (List.mem_append_left rest he)) _
    have hall := allSteps_and (allSteps_append.mp hsafe).1 hlive'
    refine (run_induction (I := fun _ _ sv => Viewed sv.1 sv.2) viewed_new ?_ hall hrun).shows
    rintro _ _ ⟨s, view⟩ e ⟨s', view'⟩ o hv ⟨hnot, hlive⟩ hstep
    obtain ⟨hs, rfl⟩ := withGhost_eq_some.mp hstep
    have hviewed := step_viewed hv hlive hnot hs
    unfold noteView
    rw [hs]
    exact hviewed

/-! ### Two runs -/

/-- A book, a channel reset, and another book. -/
def resetRecords : List (Event ℤ) :=
  [record 0 1 '0' 20 5, record 0 2 '1' 22 7, .data ⟨1, true⟩ .chr, record 0 3 '0' 21 5,
    record 0 4 '1' 23 1, record 0 5 '0' 20 5]

theorem view_current_after_reset :
    (∀ e ∈ resetRecords, e.IsLive) ∧ ∀ past rest s view out, resetRecords = past ++ rest →
      run (viewStep tickOps) ({}, none) past = some ((s, view), out) → Shows s view := by
  have hlive : ∀ e ∈ resetRecords, e.IsLive := by decide
  exact ⟨hlive, (view_current_iff tickOps resetRecords hlive).mpr (by decide +kernel)⟩

/-- The same book again: its point is the last one published and is not sent. -/
theorem rebuilt_book_not_sent :
    ¬ ∀ (es : List (Event ℤ)) (s : State ℤ) (view : Option Point) (out : List (Out ℤ)),
        (∀ e ∈ es, e.IsLive) → run (viewStep tickOps) ({}, none) es = some ((s, view), out) →
        Shows s view := by
  intro hall
  have hrun : (run (viewStep tickOps) ({}, none)
      [record 0 1 '0' 20 5, record 0 2 '1' 22 7, .data ⟨1, true⟩ .chr, record 0 1 '0' 20 5,
        record 0 2 '1' 22 7]).map (fun r => (r.1.2, r.1.1.toBook.createPoint.baddata)) =
      some (none, false) := by
    decide +kernel
  obtain ⟨⟨⟨s, view⟩, out⟩, hrun, heq⟩ := Option.map_eq_some_iff.mp hrun
  obtain ⟨hview, hgood⟩ := Prod.mk.inj heq
  have hempty : view = none := hview
  have hlive : ∀ e ∈ [record 0 1 '0' 20 5, record 0 2 '1' 22 7, .data ⟨1, true⟩ .chr,
      record 0 1 '0' 20 5, record 0 2 '1' 22 7], Event.IsLive e := by decide
  have hshows := hall _ s view out hlive hrun hgood
  rw [hempty] at hshows
  cases hshows

end KasparHft.TachBook
