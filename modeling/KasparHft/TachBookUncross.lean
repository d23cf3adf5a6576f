import KasparHft.TachBookSums

/-!
# The uncross and the sizes after it

An uncross zeroes the contra levels a New crosses and leaves their orders in the map.  A
later record of such an order still takes its size off its level, down to zero at most, and
what it takes there is the size of whoever joined the level in the meantime.

The sizes are right in every run in which such a record finds nothing to take.
-/

namespace KasparHft.TachBook

open Machine

variable {Px : Type} {ops : PriceOps Px}

/-- **Level sums with an uncross.**  Every level size is the sum over the orders of the map
    that no uncross has removed, in every run in which prices are on the ladder, a record of
    a removed order finds its level empty or takes nothing off it and does not put it back,
    and the sums fit their counters. -/
theorem levels_sum_live_orders {s : State Px} {gone : List ℕ} {es : List (Event Px)}
    {out : List (Out Px)}
    (hrun : run (withGhost (step ops) (uncrossed ops)) ({}, []) es = some ((s, gone), out))
    (hrec : AllSteps (withGhost (step ops) (uncrossed ops)) (fun sg e =>
      RecordMeets (fun b m => PricedOnLadder ops m ∧ Undisturbed ops sg.2 b m) sg.1 e ∧
      SumsBelow ops sg.2 sg.1.toBook (2 ^ 31)) ({}, []) es) (sd : Side) (px : ℤ) :
    (s.side sd).getSz px = liveSum ops gone s.orders sd px := by
  have hsound : Sound ops gone s.toBook := by
    refine run_induction (I := fun _ _ sg => Sound ops sg.2 sg.1.toBook) (Sound.empty ops []) ?_
      hrec hrun
    intro _ _ ⟨s, gone⟩ e ⟨s', gone'⟩ o hI ⟨hmeets, hsum⟩ hs
    obtain ⟨hstep, rfl⟩ := withGhost_eq_some.mp hs
    exact step_sound hI hsum hmeets hstep
  exact hsound.agree sd px

/-- A bid is removed by an uncross and deleted while its level is still empty. -/
theorem levels_sum_late_delete :
    ∃ s gone out, run (withGhost (step tickOps) (uncrossed tickOps)) ({}, [])
        [record 0 1 '1' 24 7, record 0 2 '0' 23 100, record 0 3 '1' 22 10, record 2 2 '0' 23 100,
          record 0 4 '0' 21 50] = some ((s, gone), out) ∧
      (s.side .buy).getSz 21 = liveSum tickOps gone s.orders .buy 21 := by
  obtain ⟨⟨⟨s, gone⟩, out⟩, hrun⟩ := Option.isSome_iff_exists.mp (by decide +kernel :
    (run (withGhost (step tickOps) (uncrossed tickOps)) ({}, [])
      [record 0 1 '1' 24 7, record 0 2 '0' 23 100, record 0 3 '1' 22 10, record 2 2 '0' 23 100,
        record 0 4 '0' 21 50]).isSome = true)
  exact ⟨s, gone, out, hrun, levels_sum_live_orders hrun (by decide +kernel) .buy 21⟩

/-- **The level of a later order is lost.**  Order 2 bids 100 at 23 and is removed by the
    uncross of order 3; order 4 bids 50 at 23; the Delete of order 2 takes these 50. -/
theorem uncross_takes_later_size :
    ¬ ∀ (es : List (Event ℤ)) (s : State ℤ) (gone : List ℕ) (out : List (Out ℤ)),
      run (withGhost (step tickOps) (uncrossed tickOps)) ({}, []) es = some ((s, gone), out) →
      AllSteps (step tickOps) (RecordMeets fun _ m => PricedOnLadder tickOps m) {} es →
      ∀ sd px, (s.side sd).getSz px = liveSum tickOps gone s.orders sd px := by
  intro hall
  have hsizes : (run (withGhost (step tickOps) (uncrossed tickOps)) ({}, [])
      [record 0 1 '1' 24 7, record 0 2 '0' 23 100, record 0 3 '1' 22 10, record 0 4 '0' 23 50,
        record 2 2 '0' 23 100]).map (fun r =>
      ((r.1.1.side .buy).getSz 23, liveSum tickOps r.1.2 r.1.1.orders .buy 23)) =
      some (0, 50) := by decide +kernel
  obtain ⟨⟨⟨s, gone⟩, out⟩, hrun, heq⟩ := Option.map_eq_some_iff.mp hsizes
  have hlevel := hall _ s gone out hrun (by decide +kernel) .buy 23
  rw [(Prod.mk.inj heq).1, (Prod.mk.inj heq).2] at hlevel
  cases hlevel

end KasparHft.TachBook
