import KasparHft.OrderBookGate
import KasparHft.OrderBookLedger

/-!
# What subscribers are sent around a clear

`Clear` and `GapDetected` are sent at once, a burst is sent with the next record, and with a
feed delay everything else waits in `pub_q`.  So a burst of the book before a clear may be sent
after it, and `Clear` may overtake what waits.  Neither happens where a clear finds no point
kept and nothing waiting for the subscribers it goes to, and a gap nothing waiting.

`publish_delayed` sends what has no market time past `pub_q` as well.  With a feed delay the
order needs that no point is kept and no trade told under the time 0.
-/

namespace KasparHft.OB

open AssocMap FillSlate Machine Outbox

variable {Px : Type} {cfg : FeedCfg} {ops : PriceOps Px} {s s' : State Px} {l l' : Ledger}

/-! ### What holds of the ledger -/

/-- `Clear` is not followed, for the same actor, by prices of the book before it. -/
def Fresh (x y : Marked Sent) : Prop :=
  x.msg.msg = .note .clear → y.msg.msg.priced = true → y.msg.dest = x.msg.dest → x.mark ≤ y.mark

/-- What the actor `a` is sent: without a feed delay all, with one what it is sent as a
    subscriber. -/
def told (cfg : FeedCfg) (a : ℕ) (m : Sent) : Bool :=
  m.dest == a && (cfg.feedDelay == 0 || m.msg.subscribed)

/-- The actor is not sent the point that is kept. -/
def Untold (s : State Px) (a : ℕ) : Prop :=
  ∀ x ∈ s.lastGoodPayload,
    a ∉ s.lowprioDatasubs ∧ (x.2.baddata = true ∨ a ∉ s.hiprioDatasubs)

/-- The subscribers that `Clear` goes to. -/
def State.datasubs (s : State Px) : List ℕ := s.hiprioDatasubs ++ s.lowprioDatasubs

/-- State and ledger beside each other: what waits is in `pub_q`, nothing stale was sent or
    waits, and the point kept would not be stale for who is sent it, nor overtake what waits. -/
structure Tracks (cfg : FeedCfg) (s : State Px) (l : Ledger) : Prop where
  waiting : l.box.waiting.map Marked.msg = s.pubQ.map Prod.snd
  prompt : cfg.feedDelay = 0 → s.pubQ = []
  noClear : ∀ x ∈ l.box.waiting, x.msg.msg ≠ .note .clear
  bounded : ∀ x ∈ l.box.sent, x.msg.msg = .note .clear → x.mark ≤ l.box.resets
  fresh : l.box.NoStale Fresh
  inOrder : ∀ a, l.box.InOrder (told cfg a)
  kept : ∀ x ∈ l.box.sent, x.msg.msg = .note .clear → x.mark ≤ l.kept ∨ Untold s x.msg.dest
  subs : ∀ x ∈ l.box.sent, x.msg.msg = .note .clear → x.msg.dest ∈ s.datasubs
  dated : cfg.feedDelay ≠ 0 → ∀ x ∈ s.lastGoodPayload, x.1.txtimEpoch ≠ 0
  queue : ∀ x ∈ s.delQ, x.1.isSim = true

/-- State and ledger after `o` is sent. -/
structure Goes (cfg : FeedCfg) (l : Ledger) (o : List Sent) (s' : State Px) (l' : Ledger) :
    Prop where
  tracks : Tracks cfg s' l'
  sent : l'.box.sent.map Marked.msg = l.box.sent.map Marked.msg ++ o

theorem Goes.trans {l₁ : Ledger} {s₁ : State Px} {o o' : List Sent} (h : Goes cfg l o s₁ l₁)
    (h' : Goes cfg l₁ o' s' l') : Goes cfg l (o ++ o') s' l' := by
  refine ⟨h'.tracks, ?_⟩
  rw [h'.sent, h.sent, List.append_assoc]

/-- The members the ledger is about. -/
structure SameTold (s s' : State Px) : Prop where
  pubQ : s'.pubQ = s.pubQ
  lastGoodPayload : s'.lastGoodPayload = s.lastGoodPayload
  hiprioDatasubs : s'.hiprioDatasubs = s.hiprioDatasubs
  lowprioDatasubs : s'.lowprioDatasubs = s.lowprioDatasubs
  delQ : s'.delQ = s.delQ

theorem Tracks.congr (h : Tracks cfg s l) (hsame : SameTold s s') : Tracks cfg s' l where
  waiting := by rw [hsame.pubQ]; exact h.waiting
  prompt := by rw [hsame.pubQ]; exact h.prompt
  noClear := h.noClear
  bounded := h.bounded
  fresh := h.fresh
  inOrder := h.inOrder
  kept := by
    unfold Untold
    rw [hsame.lastGoodPayload, hsame.lowprioDatasubs, hsame.hiprioDatasubs]
    exact h.kept
  subs := by
    unfold State.datasubs
    rw [hsame.lowprioDatasubs, hsame.hiprioDatasubs]
    exact h.subs
  dated := by rw [hsame.lastGoodPayload]; exact h.dated
  queue := by rw [hsame.delQ]; exact h.queue

theorem tracks_new (cfg : FeedCfg) : Tracks cfg (State.new Px cfg) {} where
  waiting := rfl
  prompt _ := rfl
  noClear _ hx := (List.not_mem_nil hx).elim
  bounded _ hx := (List.not_mem_nil hx).elim
  fresh := noStale_new Fresh
  inOrder a := inOrder_new (told cfg a)
  kept _ hx := (List.not_mem_nil hx).elim
  subs _ hx := (List.not_mem_nil hx).elim
  dated _ _ hx := (Option.not_mem_none _ hx).elim
  queue _ hx := (List.not_mem_nil hx).elim

/-! ### Publishing -/

theorem prompt_atOnce (cfg : FeedCfg) (ms : List (Sent × ℕ)) :
    prompt (ms.map fun m => (m.1, atOnce cfg m)) = (ms.filter (atOnce cfg)).map Prod.fst := by
  unfold prompt
  rw [List.filter_map, List.map_map]
  rfl

theorem delayed_atOnce (cfg : FeedCfg) (ms : List (Sent × ℕ)) :
    delayed (ms.map fun m => (m.1, atOnce cfg m)) =
      (ms.filter fun m => !atOnce cfg m).map Prod.fst := by
  unfold delayed
  rw [List.filter_map, List.map_map]
  rfl

theorem marked_msgs (k : ℕ) (ms : List Sent) : (marked k ms).map Marked.msg = ms := by
  unfold marked
  rw [List.map_map]
  exact List.map_id' ms

/-- What is sent of a batch is what `publish_delayed` sends. -/
theorem publish_sent (cfg : FeedCfg) (s : State Px) (l : Ledger) (k : ℕ)
    (ms : List (Sent × ℕ)) :
    (l.publish cfg k ms).box.sent.map Marked.msg =
      l.box.sent.map Marked.msg ++ (s.publish cfg ms).2 := by
  unfold Ledger.publish Box.say
  dsimp only
  rw [List.map_append, marked_msgs, prompt_atOnce]
  rfl

/-- What waits of a batch is what `publish_delayed` queues. -/
theorem publish_waiting (h : l.box.waiting.map Marked.msg = s.pubQ.map Prod.snd) (k : ℕ)
    (ms : List (Sent × ℕ)) :
    (l.publish cfg k ms).box.waiting.map Marked.msg =
      (s.publish cfg ms).1.pubQ.map Prod.snd := by
  unfold Ledger.publish Box.say State.publish
  dsimp only
  rw [List.map_append, marked_msgs, delayed_atOnce, List.map_append, List.map_map, h]
  rfl

theorem publish_prompt (hdelay : cfg.feedDelay = 0) (ms : List (Sent × ℕ)) :
    (s.publish cfg ms).1.pubQ = s.pubQ := by
  have hnone : (ms.filter fun m => !atOnce cfg m) = [] := by
    refine List.filter_eq_nil_iff.mpr fun m _ => ?_
    unfold atOnce
    rw [hdelay]
    simp
  change s.pubQ ++ (ms.filter fun m => !atOnce cfg m).map _ = s.pubQ
  rw [hnone]
  exact List.append_nil _

/-- What is sent of a batch was in it. -/
theorem mem_publish_sent {k : ℕ} {ms : List (Sent × ℕ)} {x : Marked Sent}
    (hx : x ∈ (l.publish cfg k ms).box.sent) :
    x ∈ l.box.sent ∨ ∃ m ∈ ms, x = ⟨m.1, k⟩ := by
  rcases List.mem_append.mp hx with hx | hx
  · exact .inl hx
  · obtain ⟨hmem, rfl⟩ := mem_marked.mp hx
    rw [prompt_atOnce] at hmem
    obtain ⟨m, hm, heq⟩ := List.mem_map.mp hmem
    exact .inr ⟨m, (List.mem_filter.mp hm).1, by rw [heq]⟩

theorem mem_publish_waiting {k : ℕ} {ms : List (Sent × ℕ)} {x : Marked Sent}
    (hx : x ∈ (l.publish cfg k ms).box.waiting) :
    x ∈ l.box.waiting ∨ ∃ m ∈ ms, x = ⟨m.1, k⟩ := by
  rcases List.mem_append.mp hx with hx | hx
  · exact .inl hx
  · obtain ⟨hmem, rfl⟩ := mem_marked.mp hx
    rw [delayed_atOnce] at hmem
    obtain ⟨m, hm, heq⟩ := List.mem_map.mp hmem
    exact .inr ⟨m, (List.mem_filter.mp hm).1, by rw [heq]⟩

/-- **A batch without `Clear`** whose prices are not older than a `Clear` sent to the same
    actor, and which waits with what waits. -/
theorem Tracks.publish (h : Tracks cfg s l) {k : ℕ} {ms : List (Sent × ℕ)}
    (hplain : ∀ m ∈ ms, m.1.msg ≠ .note .clear)
    (htimed : cfg.feedDelay ≠ 0 → ∀ m ∈ ms, m.1.msg.subscribed = true → m.2 ≠ 0)
    (hfresh : ∀ x ∈ l.box.sent, x.msg.msg = .note .clear → ∀ m ∈ ms, m.1.msg.priced = true →
      m.1.dest = x.msg.dest → x.mark ≤ k) :
    Goes cfg l (s.publish cfg ms).2 (s.publish cfg ms).1 (l.publish cfg k ms) := by
  have hold : ∀ x ∈ (l.publish cfg k ms).box.sent, x.msg.msg = .note .clear → x ∈ l.box.sent := by
    intro x hx hclear
    rcases mem_publish_sent hx with hx | ⟨m, hm, rfl⟩
    · exact hx
    · exact absurd hclear (hplain m hm)
  refine ⟨⟨publish_waiting h.waiting k ms, ?_, ?_, ?_, ?_, ?_, ?_, ?_, h.dated, h.queue⟩,
    publish_sent cfg s l k ms⟩
  · intro hdelay
    rw [publish_prompt hdelay]
    exact h.prompt hdelay
  · intro x hx
    rcases mem_publish_waiting hx with hx | ⟨m, hm, rfl⟩
    · exact h.noClear x hx
    · exact hplain m hm
  · exact fun x hx hclear => h.bounded x (hold x hx hclear) hclear
  · refine h.fresh.say ?_ ?_ ?_
    · intro x hx m' hm' hclear hpriced hdest
      obtain ⟨m, hm, rfl⟩ := List.mem_map.mp hm'
      rcases List.mem_append.mp hx with hx | hx
      · exact hfresh x hx hclear m hm hpriced hdest
      · exact absurd hclear (h.noClear x hx)
    · exact fun _ _ _ _ _ _ _ => Nat.le_refl k
    · intro m' hm' _ y _ hclear
      obtain ⟨m, hm, rfl⟩ := List.mem_map.mp hm'
      exact absurd hclear (hplain m hm)
  · intro a
    by_cases hdelay : cfg.feedDelay = 0
    · -- without a feed delay nothing waits
      have hempty : l.box.waiting = [] := by
        have hmap := h.waiting
        rw [h.prompt hdelay] at hmap
        exact List.map_eq_nil_iff.mp hmap
      refine (h.inOrder a).say_prompt ?_ ?_
      · intro m' hm' _
        obtain ⟨m, -, rfl⟩ := List.mem_map.mp hm'
        simp [atOnce, hdelay]
      · intro _ _ _ x hx
        rw [hempty] at hx
        exact (List.not_mem_nil hx).elim
    · refine (h.inOrder a).say_delayed ?_
      intro m' hm' htold
      obtain ⟨m, hm, rfl⟩ := List.mem_map.mp hm'
      have hsub : m.1.msg.subscribed = true := by
        simpa [told, hdelay] using (Bool.and_eq_true_iff.mp htold).2
      have htime := htimed hdelay m hm hsub
      simp [atOnce, hdelay, htime]
  · exact fun x hx hclear => h.kept x (hold x hx hclear) hclear
  · exact fun x hx hclear => h.subs x (hold x hx hclear) hclear

/-! ### The stages of a payload -/

theorem take_drop_takeWhile {α : Type*} (p : α → Bool) (q : List α) :
    q.take (q.takeWhile p).length = q.takeWhile p ∧
      q.drop (q.takeWhile p).length = q.dropWhile p := by
  have htake : (q.takeWhile p ++ q.dropWhile p).take (q.takeWhile p).length = q.takeWhile p :=
    List.take_left
  have hdrop : (q.takeWhile p ++ q.dropWhile p).drop (q.takeWhile p).length = q.dropWhile p :=
    List.drop_left
  rw [List.takeWhile_append_dropWhile] at htake hdrop
  exact ⟨htake, hdrop⟩

theorem Tracks.drain (h : Tracks cfg s l) (now : ℕ) :
    Goes cfg l (s.drainPubQ now).2 (s.drainPubQ now).1 (l.drain s now) := by
  have htake : (l.box.waiting.take (s.pubQ.takeWhile fun m => m.1 ≤ now).length).map Marked.msg =
      (s.pubQ.takeWhile fun m => m.1 ≤ now).map Prod.snd := by
    rw [List.map_take, h.waiting, ← List.map_take, (take_drop_takeWhile _ s.pubQ).1]
  have hdrop : (l.box.waiting.drop (s.pubQ.takeWhile fun m => m.1 ≤ now).length).map Marked.msg =
      (s.pubQ.dropWhile fun m => m.1 ≤ now).map Prod.snd := by
    rw [List.map_drop, h.waiting, ← List.map_drop, (take_drop_takeWhile _ s.pubQ).2]
  have hold : ∀ x ∈ (l.drain s now).box.sent, x.msg.msg = .note .clear → x ∈ l.box.sent := by
    intro x hx hclear
    rcases List.mem_append.mp hx with hx | hx
    · exact hx
    · exact absurd hclear (h.noClear x (List.mem_of_mem_take hx))
  refine ⟨⟨hdrop, ?_, ?_, ?_, h.fresh.release, fun a => (h.inOrder a).release, ?_, ?_, h.dated,
    h.queue⟩, ?_⟩
  · intro hdelay
    change s.pubQ.dropWhile _ = []
    rw [h.prompt hdelay]
    rfl
  · exact fun x hx => h.noClear x (List.mem_of_mem_drop hx)
  · exact fun x hx hclear => h.bounded x (hold x hx hclear) hclear
  · exact fun x hx hclear => h.kept x (hold x hx hclear) hclear
  · exact fun x hx hclear => h.subs x (hold x hx hclear) hclear
  · change (l.box.sent ++ _).map Marked.msg = _
    rw [List.map_append, htake]
    rfl

theorem drained_goes (h : Tracks cfg s l) (pl : Pl) :
    Goes cfg l (s.drained pl).2 (s.drained pl).1
      (if pl.txtimEpoch ≠ 0 ∧ pl.isSim = false then l.drain s pl.txtimEpoch else l) := by
  unfold State.drained
  split
  · have hstamped : Tracks cfg { s with lastProcessedTs := pl.txtimEpoch } l :=
      h.congr ⟨rfl, rfl, rfl, rfl, rfl⟩
    exact hstamped.drain pl.txtimEpoch
  · exact ⟨h, (List.append_nil _).symm⟩

theorem checkCross_sameTold {pl : Pl} (h : s.checkCross cfg pl = some s') : SameTold s s' := by
  unfold State.checkCross at h
  dsimp only at h
  split at h
  · split at h
    · cases h
    · cases h
      split <;> exact ⟨rfl, rfl, rfl, rfl, rfl⟩
  · cases h
    split <;> exact ⟨rfl, rfl, rfl, rfl, rfl⟩

theorem mem_address {n : Note} {m : Sent × ℕ} (h : m ∈ s.address n) (hn : n.Plain) :
    m.1.msg = .note n ∧ (m.1.msg.subscribed = true → m.2 ≠ 0) := by
  cases n with
  | clear => exact hn.elim
  | bbboChg txTime venue side bb ba =>
      obtain ⟨a, -, rfl⟩ := List.mem_map.mp h
      exact ⟨rfl, fun _ => hn⟩
  | fill dest id venue px side sz left owner tim =>
      obtain rfl := List.mem_singleton.mp h
      exact ⟨rfl, fun hsub => by cases hsub⟩
  | cancAck dest id fillsz sz =>
      obtain rfl := List.mem_singleton.mp h
      exact ⟨rfl, fun hsub => by cases hsub⟩
  | cancReject dest id =>
      obtain rfl := List.mem_singleton.mp h
      exact ⟨rfl, fun hsub => by cases hsub⟩

/-- Messages of a call on the book are of the book as it is. -/
theorem Tracks.tell (h : Tracks cfg s l) {notes : List Note} (hnotes : ∀ n ∈ notes, n.Plain) :
    Goes cfg l (s.publish cfg (notes.flatMap s.address)).2
      (s.publish cfg (notes.flatMap s.address)).1
      (l.publish cfg l.box.resets (notes.flatMap s.address)) := by
  have hmem : ∀ m ∈ notes.flatMap s.address,
      ∃ n, n.Plain ∧ m.1.msg = .note n ∧ (m.1.msg.subscribed = true → m.2 ≠ 0) := by
    intro m hm
    obtain ⟨n, hn, hmn⟩ := List.mem_flatMap.mp hm
    exact ⟨n, hnotes n hn, mem_address hmn (hnotes n hn)⟩
  apply h.publish
  · intro m hm heq
    obtain ⟨n, hplain, hmsg, -⟩ := hmem m hm
    rw [hmsg] at heq
    cases heq
    exact hplain
  · intro _ m hm
    obtain ⟨n, -, -, htimed⟩ := hmem m hm
    exact htimed
  · exact fun x hx hclear _ _ _ _ => h.bounded x hx hclear

/-- The messages of a burst: of the point kept, to the subscribers. -/
theorem mem_burstMsgs {pl : Pl} {m : Sent × ℕ} (h : m ∈ s.burstMsgs cfg pl) :
    m.1.msg ≠ .note .clear ∧
      (m.1.msg.subscribed = true → ∃ x ∈ s.lastGoodPayload, m.2 = x.1.txtimEpoch) ∧
      (m.1.msg.priced = true → ¬ Untold s m.1.dest) := by
  unfold State.burstMsgs at h
  rcases hlast : s.lastGoodPayload with _ | ⟨last, pt⟩
  · rw [hlast] at h
    exact (List.not_mem_nil h).elim
  · rw [hlast] at h
    dsimp only at h
    rcases List.mem_append.mp h with h | h
    · rcases List.mem_append.mp h with h | h
      · split at h
        · exact (List.not_mem_nil h).elim
        next hgood =>
          obtain ⟨a, ha, rfl⟩ := List.mem_map.mp h
          refine ⟨by simp, fun _ => ⟨(last, pt), rfl, rfl⟩, fun _ huntold => ?_⟩
          exact (huntold _ hlast).2.elim hgood fun hnot => hnot ha
      · split at h
        · split at h
          · obtain rfl := List.mem_singleton.mp h
            exact ⟨by simp, (fun hsub => by cases hsub), fun hpriced => by cases hpriced⟩
          · exact (List.not_mem_nil h).elim
        · exact (List.not_mem_nil h).elim
    · obtain ⟨a, ha, rfl⟩ := List.mem_map.mp h
      refine ⟨by simp, fun _ => ⟨(last, pt), rfl, rfl⟩, fun _ huntold => ?_⟩
      exact (huntold _ hlast).1 ha

theorem Tracks.forget (h : Tracks cfg s l) : Tracks cfg { s with lastGoodPayload := none } l :=
  ⟨h.waiting, h.prompt, h.noClear, h.bounded, h.fresh, h.inOrder,
    fun _ _ _ => .inr fun x hx => (Option.not_mem_none x hx).elim, h.subs,
    fun _ x hx => (Option.not_mem_none x hx).elim, h.queue⟩

/-- **A burst** is of the point kept, which is not stale for who is sent it. -/
theorem Tracks.burst (h : Tracks cfg s l) (pl : Pl) :
    Goes cfg l (s.handleEoburst cfg pl).2 (s.handleEoburst cfg pl).1
      (l.publish cfg l.kept (s.burstMsgs cfg pl)) := by
  rw [handleEoburst_eq]
  apply h.forget.publish
  · exact fun m hm => (mem_burstMsgs hm).1
  · intro hdelay m hm hsub
    obtain ⟨x, hx, heq⟩ := (mem_burstMsgs hm).2.1 hsub
    rw [heq]
    exact h.dated hdelay x hx
  · intro x hx hclear m hm hpriced hdest
    have huntold := (mem_burstMsgs hm).2.2 hpriced
    rw [hdest] at huntold
    exact (h.kept x hx hclear).resolve_right huntold

/-! ### Clears and gaps -/

/-- Nothing that a data subscriber is sent as such waits. -/
def NoneWaits (s : State Px) : Prop :=
  ∀ x ∈ s.pubQ, x.2.msg.subscribed = true → x.2.dest ∉ s.datasubs

/-- The point kept will be sent to no data subscriber. -/
def KeptForNone (s : State Px) : Prop :=
  ∀ x ∈ s.lastGoodPayload, s.lowprioDatasubs = [] ∧ (x.2.baddata = true ∨ s.hiprioDatasubs = [])

/-- Nothing of the book before is on its way to a data subscriber. -/
def ClearSafe (s : State Px) : Prop := KeptForNone s ∧ NoneWaits s

theorem ClearSafe.untold (h : ClearSafe s) (a : ℕ) : Untold s a := by
  intro x hx
  obtain ⟨hlo, hbad⟩ := h.1 x hx
  refine ⟨by rw [hlo]; exact List.not_mem_nil, hbad.imp_right fun hhi => ?_⟩
  rw [hhi]
  exact List.not_mem_nil

theorem Tracks.none_waits (h : Tracks cfg s l) (hnone : NoneWaits s) {x : Marked Sent}
    (hx : x ∈ l.box.waiting) (hdest : x.msg.dest ∈ s.datasubs) : x.msg.msg.subscribed = false := by
  have hmem : x.msg ∈ s.pubQ.map Prod.snd := by
    rw [← h.waiting]
    exact List.mem_map_of_mem hx
  obtain ⟨y, hy, heq⟩ := List.mem_map.mp hmem
  rw [Bool.eq_false_iff]
  intro hsub
  rw [← heq] at hsub hdest
  exact hnone y hy hsub hdest

/-- Messages that go out at once to data subscribers keep the order where nothing waits for
    them. -/
theorem Tracks.inOrder_prompt (h : Tracks cfg s l) (hnone : NoneWaits s) (k a : ℕ)
    {ms : List (Sent × Bool)} (hms : ∀ m ∈ ms, m.2 = true ∧ m.1.dest ∈ s.datasubs) :
    (l.box.say k ms).InOrder (told cfg a) := by
  refine (h.inOrder a).say_prompt (fun m hm _ => (hms m hm).1) ?_
  intro m hm htold x hx
  rw [Bool.eq_false_iff]
  intro htold'
  simp only [told, Bool.and_eq_true, beq_iff_eq, Bool.or_eq_true] at htold htold'
  obtain ⟨hdest, -⟩ := htold
  obtain ⟨hdest', hwhich⟩ := htold'
  rcases hwhich with hdelay | hsubscribed
  · have hmap := h.waiting
    rw [h.prompt hdelay] at hmap
    rw [List.map_eq_nil_iff.mp hmap] at hx
    exact (List.not_mem_nil hx).elim
  · have hin : x.msg.dest ∈ s.datasubs := by
      rw [hdest', ← hdest]
      exact (hms m hm).2
    have hsub := h.none_waits hnone hx hin
    rw [hsubscribed] at hsub
    cases hsub

/-- **A gap** where nothing waits. -/
theorem Tracks.gap (h : Tracks cfg s l) (hnone : NoneWaits s) :
    Goes cfg l s.gapMsgs s
      { l with box := l.box.say l.box.resets (s.gapMsgs.map fun m => (m, true)) } := by
  have hmem : ∀ m ∈ s.gapMsgs.map fun m => (m, true), m.2 = true ∧ m.1.dest ∈ s.datasubs ∧
      m.1.msg = .gapDetected := by
    intro m hm
    obtain ⟨m', hm', rfl⟩ := List.mem_map.mp hm
    obtain ⟨a, ha, rfl⟩ := List.mem_map.mp hm'
    exact ⟨rfl, ha, rfl⟩
  have hprompt : Outbox.prompt (s.gapMsgs.map fun m => (m, true)) = s.gapMsgs := by
    simp [Outbox.prompt, List.filter_map, Function.comp_def]
  have hdelayed : Outbox.delayed (s.gapMsgs.map fun m => (m, true)) = [] := by
    simp [Outbox.delayed, List.filter_map, Function.comp_def]
  have hold : ∀ x ∈ l.box.sent ++ marked l.box.resets s.gapMsgs, x.msg.msg = .note .clear →
      x ∈ l.box.sent := by
    intro x hx hclear
    rcases List.mem_append.mp hx with hx | hx
    · exact hx
    · obtain ⟨a, -, heq⟩ := List.mem_map.mp (mem_marked.mp hx).1
      rw [← heq] at hclear
      cases hclear
  refine ⟨⟨?_, h.prompt, ?_, ?_, ?_, ?_, ?_, ?_, h.dated, h.queue⟩, ?_⟩
  · unfold Box.say
    dsimp only
    rw [hdelayed]
    exact (congrArg _ (List.append_nil _)).trans h.waiting
  · unfold Box.say
    dsimp only
    rw [hdelayed]
    exact fun x hx => h.noClear x (by simpa [marked] using hx)
  · unfold Box.say
    dsimp only
    rw [hprompt]
    exact fun x hx hclear => h.bounded x (hold x hx hclear) hclear
  · refine h.fresh.say ?_ ?_ ?_
    · intro x _ m hm _ hpriced
      rw [(hmem m hm).2.2] at hpriced
      cases hpriced
    · exact fun _ _ _ _ _ _ _ => Nat.le_refl _
    · intro m hm _ y _ hclear
      rw [(hmem m hm).2.2] at hclear
      cases hclear
  · exact fun a => h.inOrder_prompt hnone _ a fun m hm => ⟨(hmem m hm).1, (hmem m hm).2.1⟩
  · unfold Box.say
    dsimp only
    rw [hprompt]
    exact fun x hx hclear => h.kept x (hold x hx hclear) hclear
  · unfold Box.say
    dsimp only
    rw [hprompt]
    exact fun x hx hclear => h.subs x (hold x hx hclear) hclear
  · unfold Box.say
    dsimp only
    rw [hprompt, List.map_append, marked_msgs]

/-- `Clear` to the data subscribers. -/
def State.clearMsgs (s : State Px) : List (Sent × ℕ) :=
  (s.lowprioDatasubs ++ s.hiprioDatasubs).map fun a => (⟨a, .note .clear⟩, 0)

theorem Tracks.sayClear (h : Tracks cfg s l) (hsafe : ClearSafe s) :
    Goes cfg l (s.publish cfg s.clearMsgs).2 (s.publish cfg s.clearMsgs).1
      (Ledger.publish cfg { l with box := l.box.reset } (l.box.resets + 1) s.clearMsgs) := by
  have hmem : ∀ m ∈ s.clearMsgs, m.2 = 0 ∧ m.1.dest ∈ s.datasubs ∧ m.1.msg = .note .clear := by
    intro m hm
    obtain ⟨a, ha, rfl⟩ := List.mem_map.mp hm
    refine ⟨rfl, ?_, rfl⟩
    exact List.mem_append.mpr (List.mem_append.mp ha).symm
  have hnow : ∀ m ∈ s.clearMsgs, atOnce cfg m = true := by
    intro m hm
    simp [atOnce, (hmem m hm).1]
  have hqueue : (s.clearMsgs.filter fun m => !atOnce cfg m) = [] := by
    refine List.filter_eq_nil_iff.mpr fun m hm => ?_
    rw [hnow m hm]
    decide
  have hsame : SameTold s (s.publish cfg s.clearMsgs).1 := by
    refine ⟨?_, rfl, rfl, rfl, rfl⟩
    change s.pubQ ++ (s.clearMsgs.filter fun m => !atOnce cfg m).map _ = s.pubQ
    rw [hqueue]
    exact List.append_nil _
  have hwaiting : ∀ x ∈ (Ledger.publish cfg { l with box := l.box.reset } (l.box.resets + 1)
      s.clearMsgs).box.waiting, x ∈ l.box.waiting := by
    intro x hx
    rcases List.mem_append.mp hx with hx | hx
    · exact hx
    · rw [delayed_atOnce, hqueue] at hx
      exact (List.not_mem_nil hx).elim
  have hreset : Tracks cfg s { l with box := l.box.reset } :=
    ⟨h.waiting, h.prompt, h.noClear,
      fun x hx hclear => (h.bounded x hx hclear).trans (Nat.le_succ _), h.fresh.reset,
      fun a => (h.inOrder a).reset, h.kept, h.subs, h.dated, h.queue⟩
  have hsent : ∀ x ∈ (Ledger.publish cfg { l with box := l.box.reset } (l.box.resets + 1)
      s.clearMsgs).box.sent, x ∈ l.box.sent ∨
        x.mark = l.box.resets + 1 ∧ x.msg.dest ∈ s.datasubs := by
    intro x hx
    rcases mem_publish_sent hx with hx | ⟨m, hm, rfl⟩
    · exact .inl hx
    · exact .inr ⟨rfl, (hmem m hm).2.1⟩
  refine ⟨Tracks.congr ⟨?_, h.prompt, ?_, ?_, ?_, ?_, ?_, ?_, h.dated, h.queue⟩ hsame,
    publish_sent cfg s _ _ _⟩
  · rw [publish_waiting hreset.waiting, hsame.pubQ]
  · exact fun x hx => h.noClear x (hwaiting x hx)
  · intro x hx hclear
    rcases hsent x hx with hx | ⟨hmark, -⟩
    · exact (h.bounded x hx hclear).trans (Nat.le_succ _)
    · exact hmark.le
  · refine hreset.fresh.say ?_ ?_ ?_
    · intro x _ m' hm' _ hpriced
      obtain ⟨m, hm, rfl⟩ := List.mem_map.mp hm'
      rw [(hmem m hm).2.2] at hpriced
      cases hpriced
    · exact fun _ _ _ _ _ _ _ => Nat.le_refl _
    · intro m' hm' _ y hy _ hpriced hdest
      obtain ⟨m, hm, rfl⟩ := List.mem_map.mp hm'
      have hin : y.msg.dest ∈ s.datasubs := by
        rw [hdest]
        exact (hmem m hm).2.1
      have hsub := h.none_waits hsafe.2 hy hin
      rw [Msg.subscribed_of_priced hpriced] at hsub
      cases hsub
  · intro a
    refine hreset.inOrder_prompt hsafe.2 _ a fun m' hm' => ?_
    obtain ⟨m, hm, rfl⟩ := List.mem_map.mp hm'
    exact ⟨hnow m hm, (hmem m hm).2.1⟩
  · intro x hx hclear
    rcases hsent x hx with hx | -
    · exact h.kept x hx hclear
    · exact .inr (hsafe.untold _)
  · intro x hx hclear
    rcases hsent x hx with hx | ⟨-, hdest⟩
    · exact h.subs x hx hclear
    · exact hdest

theorem publish_append (cfg : FeedCfg) (s : State Px) (ms ms' : List (Sent × ℕ)) :
    s.publish cfg (ms ++ ms') =
      (((s.publish cfg ms).1.publish cfg ms').1,
        (s.publish cfg ms).2 ++ ((s.publish cfg ms).1.publish cfg ms').2) := by
  unfold State.publish
  dsimp only
  simp only [List.filter_append, List.map_append, List.append_assoc]

theorem ledger_publish_append (cfg : FeedCfg) (l : Ledger) (k : ℕ) (ms ms' : List (Sent × ℕ)) :
    l.publish cfg k (ms ++ ms') = (l.publish cfg k ms).publish cfg k ms' := by
  unfold Ledger.publish Box.say prompt delayed marked
  dsimp only
  simp only [List.filter_append, List.map_append, List.append_assoc]

/-- **A clear** with no point kept for a data subscriber, and nothing waiting for one. -/
theorem Tracks.clear {o : List Sent} (h : Tracks cfg s l) (hsafe : ClearSafe s)
    (hclear : s.clear cfg = some (s', o)) : Goes cfg l o s' (l.clear cfg s) := by
  obtain ⟨⟨b, notes⟩, hbook, heq⟩ := Option.map_eq_some_iff.mp hclear
  obtain ⟨rest, rfl, hrest⟩ := clear_notes hbook
  generalize hs₀ : ({ s with book := b, ordermap := ∅, execSlate := s.execSlate.clear } :
    State Px) = s₀ at heq
  have hsame : SameTold s s₀ := by
    rw [← hs₀]
    exact ⟨rfl, rfl, rfl, rfl, rfl⟩
  have haddress : s₀.address = s.address := by
    rw [← hs₀]
    rfl
  have hsafe₀ : ClearSafe s₀ := by
    rw [← hs₀]
    exact hsafe
  have hmsgs : (Note.clear :: rest).flatMap s₀.address =
      s₀.clearMsgs ++ rest.flatMap s₀.address := rfl
  have hledger : l.clear cfg s =
      Ledger.publish cfg { l with box := l.box.reset } (l.box.resets + 1)
        ((Note.clear :: rest).flatMap s.address) := by
    unfold Ledger.clear
    rw [hbook]
  unfold State.tell at heq
  dsimp only at heq
  rw [hmsgs, publish_append] at heq
  rw [hledger, ← haddress, hmsgs, ledger_publish_append]
  cases heq
  have hsaid := (h.congr hsame).sayClear hsafe₀
  have htold := hsaid.tracks.tell hrest
  exact hsaid.trans htold

/-! ### Payloads -/

/-- What has to hold when a control payload is processed; others need nothing. -/
def SafeFor (s : State Px) (mev : Md) : Prop :=
  (mev = .clear → ClearSafe s) ∧ (mev = .gap → NoneWaits s)

theorem SafeFor.congr {mev : Md} (h : SafeFor s mev) (hsame : SameTold s s') : SafeFor s' mev := by
  unfold SafeFor ClearSafe KeptForNone NoneWaits State.datasubs at *
  rw [hsame.pubQ, hsame.lastGoodPayload, hsame.hiprioDatasubs, hsame.lowprioDatasubs]
  exact h

theorem safeFor_of_order {mev : Md} (h : mev = .add ∨ mev = .mod ∨ mev = .eoburst) :
    SafeFor s mev := by
  constructor
  · rintro rfl
    simp at h
  · rintro rfl
    simp at h

theorem Tracks.addOrMod {pl : Pl} {sender : Option ℕ} {o : List Sent} (h : Tracks cfg s l)
    (hsafe : SafeFor s pl.mev) (hcall : s.processAddOrMod cfg pl sender = some (s', o)) :
    Goes cfg l o s' (l.addOrMod cfg s pl sender) := by
  unfold Ledger.addOrMod
  cases processAddOrMod_cases hcall with
  | @call b notes _ _ horder hpx hstep hburst =>
      have hnotes : ∀ n ∈ notes, n.Plain := by
        refine step_plain ?_ hstep
        unfold Pl.call
        split <;> simp
      have hbook : Tracks cfg { s with book := b } l := h.congr ⟨rfl, rfl, rfl, rfl, rfl⟩
      have htold : Goes cfg l (State.tell cfg { s with book := b } notes).2
          (State.tell cfg { s with book := b } notes).1 _ := hbook.tell hnotes
      have hgoes := htold.tracks.burst pl
      rw [hburst] at hgoes
      rw [if_pos horder, hstep]
      exact htold.trans hgoes
  | burst hmev hburst =>
      have hgoes := h.burst pl
      rw [hburst] at hgoes
      rw [hmev]
      exact hgoes
  | clear hmev hclear =>
      have hzero : Tracks cfg { s with lastTxTim := 0, lastRecoveryTxTim := 0 } l :=
        h.congr ⟨rfl, rfl, rfl, rfl, rfl⟩
      rw [hmev]
      exact hzero.clear (hsafe.1 hmev) hclear
  | gap hmev =>
      rw [hmev]
      exact h.gap (hsafe.2 hmev)
  | nothing horder hburst hclear hgap =>
      rw [if_neg horder, if_neg hburst, if_neg hclear, if_neg hgap]
      exact ⟨h, (List.append_nil _).symm⟩

/-- The payload has a market time, or is one that keeps no point and tells no trade. -/
def Pl.Dated (pl : Pl) : Prop :=
  pl.isSim = true ∨ pl.recovery = true ∨ pl.mev = .eoburst ∨ pl.mev = .clear ∨ pl.mev = .gap ∨
    pl.txtimEpoch ≠ 0

theorem Tracks.keepPoint {pl : Pl} {o : List Sent} (h : Tracks cfg s l)
    (hdated : cfg.feedDelay ≠ 0 → pl.Dated)
    (hpoint : s.keepPoint cfg pl = some (s', o)) : Goes cfg l o s' (l.keepPoint cfg s pl) := by
  unfold State.keepPoint at hpoint
  unfold Ledger.keepPoint
  split at hpoint
  next hskip =>
    rw [if_pos hskip]
    cases hpoint
    exact ⟨h, (List.append_nil _).symm⟩
  next hskip =>
    rw [if_neg hskip]
    have htime : cfg.feedDelay ≠ 0 → pl.txtimEpoch ≠ 0 := by
      intro hdelay
      rcases hdated hdelay with hsim | hrec | hmev | hmev | hmev | htime
      · exact absurd (.inl hsim) hskip
      · exact absurd (.inr (.inl hrec)) hskip
      · exact absurd (.inr (.inr (.inl hmev))) hskip
      · exact absurd (.inr (.inr (.inr (.inr (.inl hmev))))) hskip
      · exact absurd (.inr (.inr (.inr (.inr (.inr hmev))))) hskip
      · exact htime
    split at hpoint
    · cases hpoint
    · dsimp only at hpoint
      split at hpoint
      next hkeep =>
        -- the point is of the book since the last clear
        rw [if_pos hkeep]
        cases hpoint
        refine ⟨⟨h.waiting, h.prompt, h.noClear, h.bounded, h.fresh, h.inOrder,
          fun x hx hclear => .inl (h.bounded x hx hclear), h.subs, ?_, h.queue⟩,
          (List.append_nil _).symm⟩
        intro hdelay x hx
        cases Option.mem_some.mp hx
        exact htime hdelay
      next hkeep =>
        rw [if_neg hkeep]
        have hclock : Tracks cfg { s with currtim := pl.sendTim, txtimEpoch := pl.txtimEpoch } l :=
          h.congr ⟨rfl, rfl, rfl, rfl, rfl⟩
        have hmem : ∀ m ∈ s.tradeMsgs cfg pl,
            m.1.msg = .tradeNotify pl (s.book.calcBa cfg) ∧ m.2 = pl.txtimEpoch := by
          intro m hm
          obtain ⟨a, -, rfl⟩ := List.mem_map.mp hm
          exact ⟨rfl, rfl⟩
        cases hpoint
        refine hclock.publish (k := l.box.resets) (?_ : ∀ m ∈ s.tradeMsgs cfg pl, _) ?_ ?_
        · intro m hm heq
          rw [(hmem m hm).1] at heq
          cases heq
        · intro hdelay m hm _
          rw [(hmem m hm).2]
          exact htime hdelay
        · intro x _ _ m hm hpriced
          rw [(hmem m hm).1] at hpriced
          cases hpriced

/-- **One payload**, stage by stage. -/
theorem Tracks.marketData {pl : Pl} {sender : Option ℕ} {o : List Sent} (h : Tracks cfg s l)
    (hsafe : SafeFor (s.drained pl).1 pl.mev) (hdated : cfg.feedDelay ≠ 0 → pl.Dated)
    (hpl : s.processMarketData cfg pl sender = some (s', o)) :
    Goes cfg l o s' (l.marketData cfg s pl sender) := by
  obtain ⟨s₁, s₂, o₁, o₂, hcheck, hcall, hpoint, rfl⟩ := processMarketData_stages hpl
  have hsame := checkCross_sameTold hcheck
  have hdrained := drained_goes h pl
  have hchecked := hdrained.tracks.congr hsame
  have hcalled := hchecked.addOrMod (hsafe.congr hsame) hcall
  have hkept := hcalled.tracks.keepPoint hdated hpoint
  unfold Ledger.marketData
  rw [hcheck]
  dsimp only
  rw [hcall]
  exact (hdrained.trans hcalled).trans hkept

end KasparHft.OB
