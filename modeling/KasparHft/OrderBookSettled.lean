import KasparHft.OrderBookClears
import KasparHft.OrderBookDelay

/-!
# Runs and what subscribers are sent around a clear

`clear` leaves `have_new_payload` and `last_good_payload` alone, so the next record, or the end
of the burst, sends `EndOfBurst` and `EndOfBurst2` with the prices of the book before it.  And
`Clear` and `GapDetected` are sent past `pub_q`, unlike all else a subscriber is sent.

A run is right while every clear finds no point kept that a data subscriber would be sent,
and every clear and every gap finds nothing waiting for one.  With a feed delay it also needs
that what is applied live has a market time: `publish_delayed` sends what has none past
`pub_q`.
-/

namespace KasparHft.OB

open AssocMap FillSlate Machine Outbox

variable {Px : Type} {cfg : FeedCfg} {ops : PriceOps Px} {s s' : State Px}

/-! ### Steps that are logged -/

/-- The ledger goes along, from wherever it stands. -/
def Advances (cfg : FeedCfg) (s : State Px) (o : List Sent) (s' : State Px) : Prop :=
  ∀ l, Tracks cfg s l → ∃ l', Processes cfg s l o s' l' ∧ Goes cfg l o s' l'

theorem Advances.trans {s₁ : State Px} {o o' : List Sent} (h : Advances cfg s o s₁)
    (h' : Advances cfg s₁ o' s') : Advances cfg s (o ++ o') s' := by
  intro l htracks
  obtain ⟨l₁, hlogs, hgoes⟩ := h l htracks
  obtain ⟨l', hlogs', hgoes'⟩ := h' l₁ hgoes.tracks
  exact ⟨l', hlogs.trans hlogs', hgoes.trans hgoes'⟩

theorem Idle.trans {s₁ : State Px} (h : Idle s s₁) (h' : Idle s₁ s') : Idle s s' where
  bidqs := h'.bidqs.trans h.bidqs
  askqs := h'.askqs.trans h.askqs
  bestBid := h'.bestBid.trans h.bestBid
  bestAsk := h'.bestAsk.trans h.bestAsk
  lastGoodPayload := h'.lastGoodPayload.trans h.lastGoodPayload
  pubQ := h'.pubQ.trans h.pubQ

theorem SameTold.trans {s₁ : State Px} (h : SameTold s s₁) (h' : SameTold s₁ s') :
    SameTold s s' where
  pubQ := h'.pubQ.trans h.pubQ
  lastGoodPayload := h'.lastGoodPayload.trans h.lastGoodPayload
  hiprioDatasubs := h'.hiprioDatasubs.trans h.hiprioDatasubs
  lowprioDatasubs := h'.lowprioDatasubs.trans h.lowprioDatasubs
  delQ := h'.delQ.trans h.delQ

theorem Idle.advances (hidle : Idle s s') (hsame : SameTold s s') : Advances cfg s [] s' :=
  fun l htracks => ⟨l, .idle hidle, htracks.congr hsame, (List.append_nil _).symm⟩

theorem Quiet.advances (h : Quiet s s') : Advances cfg s [] s' := by
  refine Idle.advances ?_ ⟨h.pubQ, h.lastGoodPayload, h.hiprioDatasubs, h.lowprioDatasubs, h.delQ⟩
  constructor
  · rw [h.book]
  · rw [h.book]
  · rw [h.book]
  · rw [h.book]
  · exact h.lastGoodPayload
  · exact h.pubQ

/-- The queue of our orders holds our orders. -/
theorem advances_delQ {q : List (SimPl × Option ℕ)}
    (hq : (∀ x ∈ s.delQ, x.1.isSim = true) → ∀ x ∈ q, x.1.isSim = true) :
    Advances cfg s [] { s with delQ := q } := by
  intro l htracks
  exact ⟨l, .idle ⟨rfl, rfl, rfl, rfl, rfl, rfl⟩,
    ⟨htracks.waiting, htracks.prompt, htracks.noClear, htracks.bounded, htracks.fresh,
      htracks.inOrder, htracks.kept, htracks.subs, htracks.dated, hq htracks.queue⟩,
    (List.append_nil _).symm⟩

theorem advances_recovery (s : State Px) (recovery : Bool) :
    Advances cfg s [] { s with isInRecovery := recovery } :=
  Idle.advances ⟨rfl, rfl, rfl, rfl, rfl, rfl⟩ ⟨rfl, rfl, rfl, rfl, rfl⟩

/-- A payload of a record or of one of our orders. -/
theorem order_advances {pl : Pl} {sender : Option ℕ} {o : List Sent}
    (hmev : pl.mev = .add ∨ pl.mev = .mod) (hdated : cfg.feedDelay ≠ 0 → pl.Dated)
    (h : s.processMarketData cfg pl sender = some (s', o)) : Advances cfg s o s' := by
  intro l htracks
  have hsafe : SafeFor (s.drained pl).1 pl.mev := safeFor_of_order (hmev.imp_right .inl)
  exact ⟨_, .payload hmev h, htracks.marketData hsafe hdated h⟩

theorem Pops.advances {tim : ℕ} {sims : List (SimPl × Option ℕ)} {o : List Sent}
    (h : Pops cfg tim s sims o s') : Advances cfg s o s' := by
  induction h with
  | nil s => exact (Quiet.refl s).advances
  | cons hhead hdue happly _ ih =>
      intro l htracks
      have hsim := htracks.queue _ (by rw [hhead]; exact List.mem_cons_self)
      have hone := order_advances (SimPl.mev_eq _) (fun _ => .inl hsim) happly
      have hdel := (processMarketData_delQ happly).trans hhead
      refine (hone.trans ((advances_delQ fun hall x hx => ?_).trans ih)) l htracks
      exact hall x (by rw [hdel]; exact List.mem_cons_of_mem _ hx)

theorem stamp_idle {o : List Sent} (h : Does cfg s .stamp o s') :
    Idle s s' ∧ SameTold s s' ∧ o = [] := by
  cases h with
  | stamp hbook hgood hdel hpub hhi hlo hbbbo =>
      refine ⟨⟨?_, ?_, ?_, ?_, hgood, hpub⟩, ⟨hpub, hgood, hhi, hlo, hdel⟩, rfl⟩ <;> rw [hbook]

theorem stamp_advances (h : Does cfg s .stamp [] s') : Advances cfg s [] s' := by
  obtain ⟨hidle, hsame, -⟩ := stamp_idle h
  exact hidle.advances hsame

theorem firstRecord_advances (cfg : FeedCfg) (s : State Px) (txTime : ℕ) (isSst : Bool) :
    Advances cfg s [] (s.firstRecord cfg txTime isSst) :=
  stamp_advances (firstRecord_stamp s txTime isSst)

/-- **Rounds** need market times with a feed delay, and else nothing. -/
theorem Rounds.advances {acts : List Act} {o : List Sent} (h : Rounds cfg s acts o s')
    (hdated : cfg.feedDelay ≠ 0 → ∀ q ∈ acts.flatMap Act.pls, q.Dated) : Advances cfg s o s' := by
  obtain ⟨hpath, hacts⟩ := h
  induction hpath with
  | nil hquiet => exact hquiet.advances
  | cons hquiet hact _ ih =>
      obtain ⟨ha, hrest⟩ := List.forall_mem_cons.mp hacts
      have hlater : cfg.feedDelay ≠ 0 → ∀ q ∈ List.flatMap Act.pls _, q.Dated :=
        fun hdelay q hq => hdated hdelay q (List.mem_append_right _ hq)
      have hrest := ih hlater hrest
      cases hact with
      | round hmev hreal hpops hhead happly =>
          have hown := order_advances hmev
            (fun hdelay => hdated hdelay _ (List.mem_append_left _ List.mem_cons_self)) happly
          have hround := hpops.advances.trans hown
          exact (hquiet.advances.trans hround).trans hrest
      | direct => exact ha.elim
      | clear => exact ha.elim
      | wait => exact ha.elim
      | stamp => exact ha.elim
      | subscribe => exact ha.elim

/-! ### Messages -/

/-- Every execution on the slate has a market time. -/
def SlateDated (s : State Px) : Prop := ∀ t ∈ s.execSlate.unreleased, t.pl.txtimEpoch ≠ 0

/-- A recovery starts, or the channel is reset, with nothing on its way to a data subscriber; a
    gap finds nothing waiting for one.  What is due by then has been sent.  With a feed delay a
    live record that is applied, a trade of a held order and the executions on the slate have a
    market time. -/
def Settled (cfg : FeedCfg) (ops : PriceOps Px) (s : State Px) : Event Px → Prop
  | .mbo m => (StartsRecovery cfg ops s (.mbo m) → ClearSafe s) ∧
      (cfg.feedDelay ≠ 0 → SlateDated s ∧
        (Reaches cfg ops m → m.recovery = false → m.transactTime ≠ 0))
  | .mboTrd t => cfg.feedDelay ≠ 0 → SlateDated s ∧
      ((s.ordermap.lookup t.orderID).isSome → t.transactTime ≠ 0)
  | .chr => ClearSafe (s.drained (s.controlPl .clear)).1
  | .gap => NoneWaits (s.drained (s.controlPl .gap)).1
  | _ => True

instance (s : State Px) : Decidable (KeptForNone s) :=
  inferInstanceAs (Decidable (∀ _ ∈ _, _ ∧ _))

instance (s : State Px) : Decidable (NoneWaits s) :=
  inferInstanceAs (Decidable (∀ _ ∈ _, _ → _))

instance (s : State Px) : Decidable (ClearSafe s) := inferInstanceAs (Decidable (_ ∧ _))

instance (cfg : FeedCfg) (ops : PriceOps Px) (s : State Px) (m : Mbo Px) :
    Decidable (StartsRecovery cfg ops s (.mbo m)) :=
  inferInstanceAs (Decidable (_ ∧ _ ∧ _ ∧ _))

instance (s : State Px) : Decidable (SlateDated s) :=
  inferInstanceAs (Decidable (∀ _ ∈ _, _ ≠ _))

instance (cfg : FeedCfg) (ops : PriceOps Px) (s : State Px) : ∀ e, Decidable (Settled cfg ops s e)
  | .mbo m => inferInstanceAs (Decidable ((StartsRecovery cfg ops s (.mbo m) → _) ∧
      (_ → _ ∧ (Reaches cfg ops m → _ → _ ≠ _))))
  | .mboTrd _ => inferInstanceAs (Decidable (_ → _ ∧ (_ → _ ≠ _)))
  | .chr => inferInstanceAs (Decidable (ClearSafe _))
  | .gap => inferInstanceAs (Decidable (NoneWaits _))
  | .eob | .sst _ _ | .other _ | .sim _ _ | .bbboSub _ | .subscribe _ _ =>
      inferInstanceAs (Decidable True)

theorem ClearSafe.congr (h : ClearSafe s) (hsame : SameTold s s') : ClearSafe s' := by
  unfold ClearSafe KeptForNone NoneWaits State.datasubs at *
  rw [hsame.pubQ, hsame.lastGoodPayload, hsame.hiprioDatasubs, hsame.lowprioDatasubs]
  exact h

/-- What comes before the orders of a record. -/
theorem mbo_before (cfg : FeedCfg) (s : State Px) (m : Mbo Px) :
    Idle s (((s.firstRecord cfg m.transactTime false).stamped m).gate m).1 ∧
      SameTold s (((s.firstRecord cfg m.transactTime false).stamped m).gate m).1 := by
  obtain ⟨hidle, hsame, -⟩ :=
    stamp_idle (firstRecord_stamp s m.transactTime false : Does cfg _ _ _ _)
  obtain ⟨hidle', hsame', -⟩ :=
    stamp_idle (gate_stamp (s.firstRecord cfg m.transactTime false) m : Does cfg _ _ _ _)
  exact ⟨hidle.trans hidle', hsame.trans hsame'⟩

/-- A recovery clears the slate, and else nothing happens to it; the clock stays. -/
theorem trackRecovery_slate {m : Mbo Px} {o : List Sent}
    (h : s.trackRecovery cfg m = some (s', o)) :
    (∀ t ∈ s'.execSlate.unreleased, t ∈ s.execSlate.unreleased) ∧
      s'.txtimEpoch = s.txtimEpoch := by
  rcases trackRecovery_cases h with ⟨-, -, s₁, hclear, rfl⟩ | ⟨-, rfl, -⟩
  · obtain ⟨⟨b, n⟩, -, heq⟩ := Option.map_eq_some_iff.mp hclear
    cases heq
    refine ⟨fun t ht => ?_, rfl⟩
    have hnone : t ∈ s.execSlate.clear.unreleased := ht
    rw [unreleased_of_fills_nil (clear_fills _)] at hnone
    exact (Multiset.notMem_zero t hnone).elim
  · exact ⟨fun _ ht => ht, rfl⟩

/-- The payloads of a record have market times where the record and the slate have. -/
theorem dated_of_from {m : Mbo Px} {pl : Pl} (h : pl.From s m) (hslate : SlateDated s)
    (hclock : s.txtimEpoch = m.transactTime) (htime : m.recovery = false → m.transactTime ≠ 0) :
    pl.Dated := by
  rcases h with ⟨htim, hrec⟩ | ⟨t, ht, rfl⟩
  · cases hlive : m.recovery with
    | true => exact .inr (.inl (hrec.trans hlive))
    | false =>
        refine .inr (.inr (.inr (.inr (.inr ?_))))
        rw [htim, hclock]
        exact htime hlive
  · exact .inr (.inr (.inr (.inr (.inr (hslate t ht)))))

theorem gate_clock (s : State Px) (m : Mbo Px) :
    ((s.stamped m).gate m).1.txtimEpoch = m.transactTime := by
  unfold State.gate State.stamped
  dsimp only
  split_ifs <;> rfl

/-- A book record: `Clear` where it starts a recovery, then its orders. -/
theorem mbo_noted {m : Mbo Px} {o : List Sent} {l : Ledger} (hs : Held cfg ops s)
    (htracks : Tracks cfg s l) (hsafe : Settled cfg ops s (.mbo m))
    (h : handle cfg ops s (.mbo m) = some (s', o)) :
    ∃ l', Noted cfg ops s l (.mbo m) o s' l' ∧ Goes cfg l o s' l' := by
  have hmbo : (s.firstRecord cfg m.transactTime false).onMbo cfg ops m = some (s', o) := h
  obtain ⟨hidle, hsame⟩ := mbo_before cfg s m
  have horders : ¬ StartsRecovery cfg ops s (.mbo m) → Advances cfg s o s' →
      ∃ l', Noted cfg ops s l (.mbo m) o s' l' ∧ Goes cfg l o s' l' := by
    intro hnot hadvances
    obtain ⟨l', hprocesses, hgoes⟩ := hadvances l htracks
    exact ⟨l', .orders rfl hnot hprocesses, hgoes⟩
  rcases onMbo_cases hmbo with ⟨hnot, ⟨t, t', rfl⟩, rfl⟩ | ⟨-, hrej, rfl, rfl⟩ |
    ⟨hreaches, hpass, s₁, o₁, o₂, htrack, happly, rfl⟩
  · have hfirst := firstRecord_advances cfg s m.transactTime false
    exact horders (fun hstarts => hnot hstarts.1) (hfirst.trans (quiet_clock _ t t').advances)
  · refine horders (fun hstarts => ?_) (hidle.advances hsame)
    rw [gate_stamped_snd, hstarts.2.1] at hrej
    cases hrej
  · rw [gate_stamped_snd] at hpass
    have hheld : Held cfg ops (((s.firstRecord cfg m.transactTime false).stamped m).gate m).1 :=
      (hs.of_same (firstRecord_sameHeld cfg s m.transactTime false)).of_same (gate_sameHeld _ m)
    have hrec : (((s.firstRecord cfg m.transactTime false).stamped m).gate m).1.isInRecovery =
        s.isInRecovery := by
      rw [gate_isInRecovery]
      exact (firstRecord_recovery cfg s m.transactTime false).2.2
    obtain ⟨-, -, -, hheld₁, -⟩ := trackRecovery_path hheld htrack
    obtain ⟨acts, hrounds, -, -, hfrom⟩ := applyMbo_rounds hheld₁ rfl hreaches.not_new happly
    obtain ⟨hslate, hclock⟩ := trackRecovery_slate htrack
    rw [gate_clock] at hclock
    have hdated : cfg.feedDelay ≠ 0 → ∀ q ∈ acts.flatMap Act.pls, q.Dated := by
      intro hdelay q hq
      obtain ⟨hslated, htime⟩ := hsafe.2 hdelay
      refine dated_of_from (hfrom q hq) (fun t ht => hslated t ?_) hclock (htime hreaches)
      have hsame := (firstRecord_sameHeld cfg s m.transactTime false).trans (gate_sameHeld _ m)
      rw [← hsame.2]
      exact hslate t ht
    rcases trackRecovery_cases htrack with ⟨hsnapshot, hstarts, s₂, hclear, rfl⟩ | ⟨hnot, rfl, rfl⟩
    · -- the book is cleared first
      rw [hrec] at hstarts
      have hstarts : StartsRecovery cfg ops s (.mbo m) := ⟨hreaches, hpass, hsnapshot, hstarts⟩
      have hcleared := (htracks.congr hsame).clear ((hsafe.1 hstarts).congr hsame) hclear
      obtain ⟨l', hprocesses, hgoes⟩ :=
        ((advances_recovery s₂ true).trans (hrounds.advances hdated)) _ hcleared.tracks
      exact ⟨l', .recovery hstarts hidle hclear hprocesses, hcleared.trans hgoes⟩
    · rw [hrec] at hnot
      refine horders (fun hstarts => hnot hstarts.2.2) ?_
      exact (hidle.advances hsame).trans ((advances_recovery _ _).trans (hrounds.advances hdated))

/-- A new data subscriber was not sent `Clear` before. -/
theorem subscribe_advances {hi : Bool} {sender : ℕ} {o : List Sent}
    (h : handle cfg ops s (.subscribe hi sender) = some (s', o)) : Advances cfg s o s' := by
  have hnew : sender ∉ s.datasubs ∧ o = [] ∧ Idle s s' ∧ s'.delQ = s.delQ ∧
      (s'.hiprioDatasubs = s.hiprioDatasubs ∨ s'.hiprioDatasubs = s.hiprioDatasubs ++ [sender]) ∧
      (s'.lowprioDatasubs = s.lowprioDatasubs ∨
        s'.lowprioDatasubs = s.lowprioDatasubs ++ [sender]) := by
    obtain ⟨hnot, rfl, rfl | rfl⟩ := subscribe_cases h
    · exact ⟨hnot, rfl, ⟨rfl, rfl, rfl, rfl, rfl, rfl⟩, rfl, .inr rfl, .inl rfl⟩
    · exact ⟨hnot, rfl, ⟨rfl, rfl, rfl, rfl, rfl, rfl⟩, rfl, .inl rfl, .inr rfl⟩
  obtain ⟨hnot, rfl, hidle, hdel, hhi, hlo⟩ := hnew
  intro l htracks
  refine ⟨l, .idle hidle, ⟨?_, ?_, htracks.noClear, htracks.bounded, htracks.fresh,
    htracks.inOrder, ?_, ?_, ?_, ?_⟩, (List.append_nil _).symm⟩
  · rw [hidle.pubQ]
    exact htracks.waiting
  · rw [hidle.pubQ]
    exact htracks.prompt
  · intro x hx hclear
    have hne : x.msg.dest ≠ sender := by
      intro heq
      have hin := htracks.subs x hx hclear
      rw [heq] at hin
      exact hnot hin
    refine (htracks.kept x hx hclear).imp_right fun huntold y hy => ?_
    rw [hidle.lastGoodPayload] at hy
    obtain ⟨hnlo, hbad⟩ := huntold y hy
    constructor
    · rcases hlo with hlo | hlo <;> rw [hlo] <;> simp [hnlo, hne]
    · rcases hhi with hhi | hhi <;> rw [hhi] <;> simpa [hne] using hbad
  · intro x hx hclear
    have hin := htracks.subs x hx hclear
    unfold State.datasubs at hin ⊢
    rcases List.mem_append.mp hin with hin | hin
    · apply List.mem_append_left
      rcases hhi with hhi | hhi <;> rw [hhi] <;> simp [hin]
    · apply List.mem_append_right
      rcases hlo with hlo | hlo <;> rw [hlo] <;> simp [hin]
  · rw [hidle.lastGoodPayload]
    exact htracks.dated
  · rw [hdel]
    exact htracks.queue

/-- **One message.** -/
theorem handle_noted {e : Event Px} {o : List Sent} {l : Ledger} (hs : Held cfg ops s)
    (htracks : Tracks cfg s l) (hsafe : Settled cfg ops s e)
    (h : handle cfg ops s e = some (s', o)) :
    ∃ l', Noted cfg ops s l e o s' l' ∧ Goes cfg l o s' l' := by
  have horders : e.control = none → ¬ StartsRecovery cfg ops s e → Advances cfg s o s' →
      ∃ l', Noted cfg ops s l e o s' l' ∧ Goes cfg l o s' l' := by
    intro hnone hnot hadvances
    obtain ⟨l', hprocesses, hgoes⟩ := hadvances l htracks
    exact ⟨l', .orders hnone hnot hprocesses, hgoes⟩
  cases e with
  | mbo m => exact mbo_noted hs htracks hsafe h
  | mboTrd t =>
      have hfirst := firstRecord_sameHeld cfg s t.transactTime false
      obtain ⟨acts, hrounds, -, hfrom⟩ := onTrd_rounds (hs.of_same hfirst) h
      have hstamped := firstRecord_advances cfg s t.transactTime false
      refine horders rfl id (hstamped.trans (hrounds.advances fun hdelay q hq => ?_))
      obtain ⟨hslated, htime⟩ := hsafe hdelay
      rw [hfirst.1, hfirst.2] at hfrom
      rcases hfrom q hq with ⟨hheld, htim⟩ | ⟨x, hx, rfl⟩
      · exact .inr (.inr (.inr (.inr (.inr (htim ▸ htime hheld)))))
      · exact .inr (.inr (.inr (.inr (.inr (hslated x hx)))))
  | chr =>
      change s.processMarketData cfg (s.controlPl .clear) none = some (s', o) at h
      refine ⟨_, .control rfl h, htracks.marketData ⟨fun _ => hsafe, fun hmev => ?_⟩
        (fun _ => .inr (.inr (.inr (.inl rfl)))) h⟩
      cases hmev
  | gap =>
      change s.processMarketData cfg (s.controlPl .gap) none = some (s', o) at h
      refine ⟨_, .control rfl h, htracks.marketData ⟨fun hmev => ?_, fun _ => hsafe⟩
        (fun _ => .inr (.inr (.inr (.inr (.inl rfl))))) h⟩
      cases hmev
  | eob =>
      change s.processMarketData cfg (s.controlPl .eoburst) none = some (s', o) at h
      exact ⟨_, .control rfl h, htracks.marketData (safeFor_of_order (.inr (.inr rfl)))
        (fun _ => .inr (.inr (.inl rfl))) h⟩
  | sst txtim tradingStatus =>
      cases h
      have hstatus : Advances cfg (s.firstRecord cfg txtim true) []
          { s.firstRecord cfg txtim true with matching := tradingStatus == 17 } :=
        Idle.advances ⟨rfl, rfl, rfl, rfl, rfl, rfl⟩ ⟨rfl, rfl, rfl, rfl, rfl⟩
      exact horders rfl id ((firstRecord_advances cfg s txtim true).trans hstatus)
  | other txTime =>
      cases h
      exact horders rfl id (firstRecord_advances cfg s txTime false)
  | sim p sender =>
      refine horders rfl id ?_
      obtain ⟨hsim, ⟨-, happly⟩ | ⟨-, rfl, rfl⟩⟩ := onSim_cases h
      · exact order_advances (s.timed p).mev_eq (fun _ => .inl hsim) happly
      · refine advances_delQ fun hall => List.forall_mem_append.mpr ⟨hall, ?_⟩
        exact List.forall_mem_singleton.mpr hsim
  | bbboSub sender =>
      cases h
      exact horders rfl id
        (Idle.advances ⟨rfl, rfl, rfl, rfl, rfl, rfl⟩ ⟨rfl, rfl, rfl, rfl, rfl⟩)
  | subscribe hi sender => exact horders rfl id (subscribe_advances h)

/-! ### Runs -/

/-- What subscribers are promised of a run: in its ledger nothing stale was sent or waits, and
    what each is sent is in the order it was generated in. -/
structure WellSent (cfg : FeedCfg) (ops : PriceOps Px) (es : List (Event Px)) (out : List Sent)
    (s : State Px) (l : Ledger) : Prop where
  logs : Logs cfg ops es out s l
  sent : l.box.sent.map Marked.msg = out
  waiting : l.box.waiting.map Marked.msg = s.pubQ.map Prod.snd
  fresh : l.box.NoStale Fresh
  inOrder : ∀ a, l.box.InOrder (told cfg a)

/-- No ledger keeps a point of a book to come. -/
def Ledger.Known (l : Ledger) : Prop := l.kept ≤ l.box.resets

theorem Ledger.Known.clear {l : Ledger} (h : l.Known) (cfg : FeedCfg) (s : State Px) :
    (l.clear cfg s).Known ∧ l.box.resets ≤ (l.clear cfg s).box.resets := by
  unfold Ledger.clear
  split
  · exact ⟨h, le_rfl⟩
  · exact ⟨Nat.le_succ_of_le h, Nat.le_succ _⟩

theorem Ledger.Known.addOrMod {l : Ledger} (h : l.Known) (cfg : FeedCfg) (s : State Px) (pl : Pl)
    (sender : Option ℕ) : (l.addOrMod cfg s pl sender).Known := by
  unfold Ledger.addOrMod
  split
  · split
    · exact h
    · exact h
  · split
    · exact h
    · split
      · exact (h.clear cfg s).1
      · split <;> exact h

theorem Ledger.Known.marketData {l : Ledger} (h : l.Known) (cfg : FeedCfg) (s : State Px) (pl : Pl)
    (sender : Option ℕ) : (l.marketData cfg s pl sender).Known := by
  have hdrain : Ledger.Known
      (if pl.txtimEpoch ≠ 0 ∧ pl.isSim = false then l.drain s pl.txtimEpoch else l) := by
    split <;> exact h
  unfold Ledger.marketData
  dsimp only
  split
  · exact hdrain
  · have hcalled := hdrain.addOrMod cfg ‹_› pl sender
    split
    · exact hcalled
    · unfold Ledger.keepPoint
      split
      · exact hcalled
      · split
        · exact le_rfl
        · exact hcalled

theorem Processes.known {l l' : Ledger} {o : List Sent} (h : Processes cfg s l o s' l')
    (hl : l.Known) : l'.Known := by
  induction h with
  | idle => exact hl
  | payload => exact hl.marketData cfg _ _ _
  | trans _ _ ih ih' => exact ih' (ih hl)

theorem Logs.known {es : List (Event Px)} {out : List Sent} {l : Ledger}
    (h : Logs cfg ops es out s l) : l.Known := by
  induction h with
  | new => exact le_rfl
  | step _ _ hnoted ih =>
      cases hnoted with
      | control => exact ih.marketData cfg _ _ _
      | recovery _ _ _ hprocesses => exact hprocesses.known (ih.clear cfg _).1
      | orders _ _ hprocesses => exact hprocesses.known ih

theorem Logs.run {es : List (Event Px)} {out : List Sent} {l : Ledger}
    (h : Logs cfg ops es out s l) :
    Machine.run (handle cfg ops) (State.new Px cfg) es = some (s, out) := by
  induction h with
  | new => rfl
  | step _ hstep _ ih => exact run_concat.mpr ⟨_, _, _, ih, hstep, rfl⟩

theorem Logs.last {es : List (Event Px)} {e : Event Px} {out : List Sent} {l' : Ledger}
    (h : Logs cfg ops (es ++ [e]) out s' l') :
    ∃ out₁ o s l, Logs cfg ops es out₁ s l ∧ handle cfg ops s e = some (s', o) ∧
      Noted cfg ops s l e o s' l' := by
  generalize hes : es ++ [e] = fs at h
  cases h with
  | new => exact absurd hes (List.append_ne_nil_of_right_ne_nil es (List.cons_ne_nil e []))
  | step hlogs hstep hnoted =>
      obtain ⟨rfl, heq⟩ := List.append_inj' hes rfl
      cases heq
      exact ⟨_, _, _, _, hlogs, hstep, hnoted⟩

/-- The ledger of a control record is that of its payload. -/
theorem Noted.of_control {e : Event Px} {mev : Md} {o : List Sent} {l l' : Ledger}
    (he : e.control = some mev) (h : Noted cfg ops s l e o s' l') :
    l' = l.marketData cfg s (s.controlPl mev) none := by
  cases h with
  | control he' hpl =>
      rw [he] at he'
      cases he'
      rfl
  | recovery hstarts =>
      cases e <;> first | exact hstarts.elim | cases he
  | orders hnone =>
      rw [he] at hnone
      cases hnone

theorem drained_kept (s : State Px) (pl : Pl) :
    (s.drained pl).1.lastGoodPayload = s.lastGoodPayload ∧
      (s.drained pl).1.lowprioDatasubs = s.lowprioDatasubs := by
  unfold State.drained
  split <;> exact ⟨rfl, rfl⟩

/-- The ledger when what is due has been sent. -/
theorem drainFor_keeps (s : State Px) (l : Ledger) (pl : Pl) {l₁ : Ledger}
    (hl₁ : (if pl.txtimEpoch ≠ 0 ∧ pl.isSim = false then l.drain s pl.txtimEpoch else l) = l₁) :
    l₁.box.resets = l.box.resets ∧ l₁.kept = l.kept ∧ ∀ x ∈ l.box.sent, x ∈ l₁.box.sent := by
  rw [← hl₁]
  split
  · exact ⟨rfl, rfl, fun x hx => List.mem_append_left _ hx⟩
  · exact ⟨rfl, rfl, fun x hx => hx⟩

/-- A channel reset sends `Clear` and keeps the point. -/
theorem reset_keeps_point {l : Ledger} {o : List Sent} {a : ℕ} (ha : a ∈ s.lowprioDatasubs)
    (h : s.processMarketData cfg (s.controlPl .clear) none = some (s', o)) :
    ⟨⟨a, .note .clear⟩, l.box.resets + 1⟩ ∈
        (l.marketData cfg s (s.controlPl .clear) none).box.sent ∧
      (l.marketData cfg s (s.controlPl .clear) none).kept = l.kept ∧
      s'.lastGoodPayload = s.lastGoodPayload ∧ s'.lowprioDatasubs = s.lowprioDatasubs := by
  obtain ⟨s₁, s₂, o₁, o₂, hcheck, hcall, hpoint, -⟩ := processMarketData_stages h
  have hsame := checkCross_sameTold hcheck
  obtain ⟨hgood, hlo⟩ := drained_kept s (s.controlPl .clear)
  have hclear : State.clear cfg { s₁ with lastTxTim := 0, lastRecoveryTxTim := 0 } =
      some (s₂, o₁) := hcall
  obtain ⟨⟨b, notes⟩, hbook, heq⟩ := Option.map_eq_some_iff.mp hclear
  have hbook : s₁.book.clear cfg.toCfg = some (b, notes) := hbook
  obtain ⟨rest, rfl, -⟩ := clear_notes hbook
  have hstay : some (s₂, []) = some (s', o₂) := hpoint
  have hstate : s'.lastGoodPayload = s₁.lastGoodPayload ∧
      s'.lowprioDatasubs = s₁.lowprioDatasubs := by
    cases hstay
    cases heq
    exact ⟨rfl, rfl⟩
  generalize hl₁ : (if (s.controlPl .clear).txtimEpoch ≠ 0 ∧ (s.controlPl .clear).isSim = false then
    l.drain s (s.controlPl .clear).txtimEpoch else l) = l₁
  obtain ⟨hresets, hkept, -⟩ := drainFor_keeps s l _ hl₁
  have hledger : l.marketData cfg s (s.controlPl .clear) none =
      Ledger.publish cfg { l₁ with box := l₁.box.reset } (l₁.box.resets + 1)
        ((Note.clear :: rest).flatMap s₁.address) := by
    unfold Ledger.marketData
    rw [hcheck, hl₁]
    dsimp only
    rw [hcall]
    change l₁.clear cfg s₁ = _
    unfold Ledger.clear
    rw [hbook]
  rw [hledger]
  refine ⟨?_, hkept, hstate.1.trans (hsame.lastGoodPayload.trans hgood),
    hstate.2.trans (hsame.lowprioDatasubs.trans hlo)⟩
  rw [← hresets]
  refine List.mem_append_right _ (mem_marked.mpr ⟨mem_prompt.mpr ?_, rfl⟩)
  refine List.mem_map.mpr ⟨(⟨a, .note .clear⟩, 0), ?_, by simp [atOnce]⟩
  refine List.mem_flatMap.mpr ⟨.clear, List.mem_cons_self, ?_⟩
  refine List.mem_map.mpr ⟨a, List.mem_append_left _ ?_, rfl⟩
  rw [hsame.lowprioDatasubs, hlo]
  exact ha

/-- The end of a burst sends the point kept, even one older than a `Clear` that was sent. -/
theorem burst_stale {l : Ledger} {o : List Sent} {x : Marked Sent} (hx : x ∈ l.box.sent)
    (hclear : x.msg.msg = .note .clear) (hmark : l.kept < x.mark)
    (hdest : x.msg.dest ∈ s.lowprioDatasubs) {kept : Pl × Point}
    (hlast : s.lastGoodPayload = some kept)
    (h : s.processMarketData cfg (s.controlPl .eoburst) none = some (s', o)) :
    ¬ (l.marketData cfg s (s.controlPl .eoburst) none).box.NoStale Fresh := by
  obtain ⟨s₁, s₂, o₁, o₂, hcheck, hcall, -, -⟩ := processMarketData_stages h
  have hsame := checkCross_sameTold hcheck
  obtain ⟨hgood, hlo⟩ := drained_kept s (s.controlPl .eoburst)
  generalize hl₁ : (if (s.controlPl .eoburst).txtimEpoch ≠ 0 ∧
    (s.controlPl .eoburst).isSim = false then
    l.drain s (s.controlPl .eoburst).txtimEpoch else l) = l₁
  obtain ⟨-, hkept, hsent⟩ := drainFor_keeps s l _ hl₁
  have hledger : l.marketData cfg s (s.controlPl .eoburst) none =
      l₁.publish cfg l₁.kept (s₁.burstMsgs cfg (s.controlPl .eoburst)) := by
    unfold Ledger.marketData
    rw [hcheck, hl₁]
    dsimp only
    rw [hcall]
    rfl
  have hburst : ∃ m ∈ s₁.burstMsgs cfg (s.controlPl .eoburst),
      m.1.dest = x.msg.dest ∧ m.1.msg.priced = true := by
    unfold State.burstMsgs
    rw [hsame.lastGoodPayload, hgood, hlast]
    dsimp only
    rw [hsame.lowprioDatasubs, hlo]
    exact ⟨_, List.mem_append_right _ (List.mem_map_of_mem hdest), rfl, rfl⟩
  obtain ⟨m, hm, hto, hpriced⟩ := hburst
  rw [hledger]
  intro hfresh
  have hstale : x.mark ≤ l₁.kept :=
    hfresh.said (hsent x hx) (List.mem_map_of_mem hm) hclear hpriced hto
  omega

/-! ### Two runs -/

/-- A simulated asset of a hundred prices. -/
def hundredPrices : FeedCfg := { simulCfg with toCfg := ⟨100, by decide, true⟩ }

theorem five_lt : 5 < 2 ^ 32 := by decide

/-- A New of five. -/
def newOfFive (tim oid : ℕ) (side : Char) (px : ℤ) (recovery : Bool) : Event ℤ :=
  .mbo
    { venue := 1, transactTime := tim, sendingTime := tim, orderUpdateAction := 0
      securityID := 1, orderID := oid, pxd := px, displayQty := 5, displayQty_lt := five_lt
      side := side, endOfEvent := true, recovery := recovery }

/-- The same with a feed delay of a microsecond. -/
def delayedPrices : FeedCfg := { hundredPrices with feedDelay := 1 }

/-- A Delete of an order that is not held; it moves the clock on. -/
def deleteOf (tim oid : ℕ) : Event ℤ :=
  .mbo
    { venue := 1, transactTime := tim, sendingTime := tim, orderUpdateAction := 2
      securityID := 1, orderID := oid, pxd := 40, displayQty := 5, displayQty_lt := five_lt
      side := '0', endOfEvent := true, recovery := false }

/-- A bid and an ask, the end of the burst, and a reset when it has been sent; then the same
    after a recovery. -/
def resetsAfterBursts : List (Event ℤ) :=
  [.subscribe true 4, .subscribe false 5, .bbboSub 6, newOfFive 5000 1 '0' 40 false,
    newOfFive 5000 2 '1' 50 false, .eob, deleteOf 7000 9, .chr, newOfFive 8000 3 '0' 41 false,
    .eob, deleteOf 10000 9, .eob, newOfFive 20000 4 '0' 42 true, newOfFive 30000 5 '1' 52 false,
    .gap, .eob, deleteOf 40000 9, .eob]

/-- A bid and an ask, a reset, and the end of the burst. -/
def resetInBurst : List (Event ℤ) :=
  [.subscribe false 5, newOfFive 5 1 '0' 40 false, newOfFive 5 2 '1' 50 false, .chr, .eob]

end KasparHft.OB
