import KasparHft.ILink
import KasparHft.Machine

/-!
# What `check_seq` asks for

Every number up to the largest one received should have been received, or lie in a request
for retransmission that was sent or waits to be.

A number that nobody asked for is one that a heartbeat or an acknowledgement of party details
stepped over: a heartbeat puts its number among the seen ones, and into `lastseq` when it is
the next, although that message never came.  And a hole inside what is being retransmitted is
asked for in one request, whatever its length, if anything below was seen at all.
-/

namespace KasparHft.ILink

open Machine

/-! ### Arithmetic and requests -/

theorem add32_eq {a b : ℕ} (h : a + b < 2 ^ 32) : add32 a b = a + b := Nat.mod_eq_of_lt h

theorem sub32_eq {a b : ℕ} (ha : a < 2 ^ 32) (hb : b ≤ a) : sub32 a b = a - b := by
  unfold sub32
  omega

/-- The numbers that a request asks for. -/
def Request.Covers (r : Request) (k : ℕ) : Prop := r.fromSeqNo ≤ k ∧ k < r.fromSeqNo + r.count

instance (r : Request) (k : ℕ) : Decidable (r.Covers k) :=
  inferInstanceAs (Decidable (_ ∧ _))

/-- A request is of 1 to 2500 messages. -/
def Request.Sized (r : Request) : Prop := 1 ≤ r.count ∧ r.count ≤ 2500

theorem splitGap_succ {fuel fromSeqNo total : ℕ} (htotal : total ≠ 0)
    (hlt : fromSeqNo + total < 2 ^ 32) :
    splitGap (fuel + 1) fromSeqNo total =
      ⟨fromSeqNo, min 2500 total⟩ ::
        splitGap fuel (fromSeqNo + min 2500 total) (total - min 2500 total) := by
  have hcount : min 2500 total ≤ total := min_le_right _ _
  simp only [splitGap, if_neg htotal]
  rw [add32_eq (by omega)]

theorem splitGap_sized {fuel fromSeqNo total : ℕ} :
    ∀ r ∈ splitGap fuel fromSeqNo total, r.Sized := by
  induction fuel generalizing fromSeqNo total with
  | zero => simp [splitGap]
  | succ fuel ih =>
      intro r hr
      rw [splitGap] at hr
      split at hr
      next => simp at hr
      next htotal =>
        rcases List.mem_cons.mp hr with rfl | hr
        · constructor
          · change 1 ≤ min 2500 total
            omega
          · exact min_le_left _ _
        · exact ih r hr

/-- The requests of a gap stay inside it. -/
theorem splitGap_within {fuel fromSeqNo total : ℕ} (hlt : fromSeqNo + total < 2 ^ 32) :
    ∀ r ∈ splitGap fuel fromSeqNo total,
      fromSeqNo ≤ r.fromSeqNo ∧ r.fromSeqNo + r.count ≤ fromSeqNo + total := by
  induction fuel generalizing fromSeqNo total with
  | zero => simp [splitGap]
  | succ fuel ih =>
      intro r hr
      by_cases htotal : total = 0
      · simp [splitGap, htotal] at hr
      · have hcount : min 2500 total ≤ total := min_le_right _ _
        rw [splitGap_succ htotal hlt] at hr
        rcases List.mem_cons.mp hr with rfl | hr
        · change fromSeqNo ≤ fromSeqNo ∧ fromSeqNo + min 2500 total ≤ fromSeqNo + total
          omega
        · have hin := ih (by omega) r hr
          omega

/-- The requests of a gap leave nothing of it out. -/
theorem splitGap_covers {fuel fromSeqNo total k : ℕ} (hlt : fromSeqNo + total < 2 ^ 32)
    (hfuel : total ≤ fuel) (hfrom : fromSeqNo ≤ k) (hk : k < fromSeqNo + total) :
    ∃ r ∈ splitGap fuel fromSeqNo total, r.Covers k := by
  induction fuel generalizing fromSeqNo total with
  | zero => omega
  | succ fuel ih =>
      rw [splitGap_succ (by omega) hlt]
      by_cases hfirst : k < fromSeqNo + min 2500 total
      · exact ⟨_, List.mem_cons_self, hfrom, hfirst⟩
      · have hrest : fromSeqNo + min 2500 total ≤ k := not_lt.mp hfirst
        obtain ⟨r, hr, hcovers⟩ := @ih _ (total - min 2500 total) (by omega) (by omega) hrest
          (by omega)
        exact ⟨r, List.mem_cons_of_mem _ hr, hcovers⟩

/-! ### What one message adds -/

/-- `o` is sent and `news` asked for: what was sent or waits now are the requests that waited
    before and the new ones. -/
structure Asking (s : Seq) (o news : List Request) (s' : Seq) : Prop where
  lastseq : s'.lastseq = s.lastseq
  seen : s'.seenSeqnums = s.seenSeqnums
  mem : ∀ r, r ∈ o ++ s'.requestsWaiting ↔ r ∈ s.requestsWaiting ∨ r ∈ news
  sent : ∀ r ∈ s'.requestsSent, r ∈ s.requestsSent ∨ r ∈ o

theorem Asking.refl (s : Seq) : Asking s [] [] s :=
  ⟨rfl, rfl, fun _ => by simp, fun _ => .inl⟩

theorem Asking.trans {s s₁ s₂ : Seq} {o₁ o₂ news₁ news₂ : List Request}
    (h₁ : Asking s o₁ news₁ s₁) (h₂ : Asking s₁ o₂ news₂ s₂) :
    Asking s (o₁ ++ o₂) (news₁ ++ news₂) s₂ where
  lastseq := h₂.lastseq.trans h₁.lastseq
  seen := h₂.seen.trans h₁.seen
  mem := by
    intro r
    have hfirst := h₁.mem r
    have hsecond := h₂.mem r
    simp only [List.mem_append] at hfirst hsecond ⊢
    tauto
  sent := by
    intro r hr
    rw [List.mem_append]
    rcases h₂.sent r hr with hr | hr
    · exact (h₁.sent r hr).imp_right .inl
    · exact .inr (.inr hr)

theorem sendWaiting_asking (s : Seq) (sn : ℕ) :
    Asking s (s.sendWaiting sn).2 [] (s.sendWaiting sn).1 := by
  unfold Seq.sendWaiting
  split
  next => exact .refl s
  next req rest hwaiting =>
    split
    next =>
      refine ⟨rfl, rfl, fun r => by simp [hwaiting], fun r hr => ?_⟩
      simpa using hr
    next => exact .refl s

/-- `lastseq_adj`. -/
def Seq.lastseqAdj (s : Seq) : ℕ := max s.lastseq s.lastSeqNumRequested

/-- What is asked for when `sn` comes after `lastseq + 1` and `sn - 1` was not seen. -/
inductive GapNews (s : Seq) (sn : ℕ) : List Request → Prop where
  | inside {p : ℕ} (hadj : sn ≤ s.lastseqAdj + 1) (hbelow : s.seenBelow sn = some p) :
      GapNews s sn [⟨p + 1, (sn - (p + 1)) % 2 ^ 16⟩]
  | fresh (hadj : s.lastseqAdj + 1 < sn) :
      GapNews s sn
        (splitGap (sn - s.lastseqAdj - 1) (s.lastseqAdj + 1) (sn - s.lastseqAdj - 1))

theorem seenBelow_eq_some {s : Seq} {sn p : ℕ} (h : s.seenBelow sn = some p) :
    p ∈ s.seenSeqnums ∧ p < sn := by
  have hmem := List.max?_mem h
  simpa using hmem

section RequestGap

variable {s : Seq} {sn : ℕ} (hsn : sn < 2 ^ 32) (hadj : s.lastseqAdj + 1 < 2 ^ 32)
include hsn hadj

theorem requestGap_of_unseen (hpos : 0 < sn) (hprev : sn - 1 ∉ s.seenSeqnums)
    {r : Seq × List Request} (h : s.requestGap sn true = some r) :
    ∃ news, GapNews s sn news ∧ Asking s r.2 news r.1 := by
  have hmax : max s.lastseq s.lastSeqNumRequested = s.lastseqAdj := rfl
  have hunseen : s.seenSeqnums.contains (sub32 sn 1) = false := by
    rw [sub32_eq hsn hpos]
    simpa using hprev
  simp only [Seq.requestGap, hunseen, Bool.not_true, Bool.or_self, Bool.false_eq_true, if_false,
    hmax, add32_eq hadj] at h
  split at h
  next hin =>
    cases hbelow : s.seenBelow sn with
    | none => simp [hbelow] at h
    | some p =>
        have hp := (seenBelow_eq_some hbelow).2
        simp only [hbelow, add32_eq (show p + 1 < 2 ^ 32 by omega),
          sub32_eq hsn (show p + 1 ≤ sn by omega), Option.ite_none_left_eq_some,
          Option.some.injEq] at h
        obtain ⟨-, rfl⟩ := h
        exact ⟨_, .inside hin hbelow, rfl, rfl, fun r => by simp [or_comm], fun _ => .inl⟩
  next hout =>
    have hcount : sub32 (sub32 sn s.lastseqAdj) 1 = sn - s.lastseqAdj - 1 := by
      rw [sub32_eq hsn (by omega), sub32_eq (by omega) (by omega)]
    refine ⟨_, .fresh (by omega), ?_⟩
    rw [hcount, if_neg (by omega)] at h
    split at h
    next hsplit =>
      cases h
      rw [hsplit]
      exact .refl s
    next first rest hsplit =>
      cases h
      rw [hsplit]
      refine ⟨rfl, rfl, fun r => ?_, fun r hr => ?_⟩
      · simp only [List.mem_append, List.mem_cons, List.not_mem_nil, or_false]
        exact or_left_comm
      · simpa using hr

theorem requestGap_exists (hpos : 0 < sn)
    (hinside : sn - 1 ∉ s.seenSeqnums → sn ≤ s.lastseqAdj + 1 → ∃ p, s.seenBelow sn = some p) :
    ∃ r, s.requestGap sn true = some r := by
  have hmax : max s.lastseq s.lastSeqNumRequested = s.lastseqAdj := rfl
  simp only [Seq.requestGap, Bool.not_true, Bool.or_false, hmax, add32_eq hadj,
    List.contains_eq_mem, decide_eq_true_eq, sub32_eq hsn hpos]
  by_cases hprev : sn - 1 ∈ s.seenSeqnums
  · exact ⟨_, if_pos hprev⟩
  · rw [if_neg hprev]
    split
    next hin =>
      obtain ⟨p, hbelow⟩ := hinside hprev hin
      obtain ⟨hseen, hp⟩ := seenBelow_eq_some hbelow
      -- the number before was not seen, so the hole is not empty
      have hne : p ≠ sn - 1 := fun heq => hprev (heq ▸ hseen)
      simp only [hbelow, add32_eq (show p + 1 < 2 ^ 32 by omega),
        sub32_eq hsn (show p + 1 ≤ sn by omega)]
      rw [if_neg (by omega)]
      exact ⟨_, rfl⟩
    next hout =>
      rw [if_neg (by rw [sub32_eq hsn (by omega), sub32_eq (by omega) (by omega)]; omega)]
      split
      next => exact ⟨_, rfl⟩
      next => exact ⟨_, rfl⟩

end RequestGap

/-! ### One message -/

/-- The number a message counts as, and the one that a heartbeat announces. -/
def Inbound.number : Inbound → ℕ
  | .business sn => sn
  | .partyDetailsAck sn => sn
  | .sequence nextSeqNo => nextSeqNo - 1

/-- Numbers are `uint32_t`, and the next one is too. -/
def Inbound.InRange : Inbound → Prop
  | .business sn => sn + 1 < 2 ^ 32
  | .partyDetailsAck sn => sn + 1 < 2 ^ 32
  | .sequence nextSeqNo => 0 < nextSeqNo ∧ nextSeqNo < 2 ^ 32

theorem Inbound.InRange.number {i : Inbound} (h : i.InRange) : i.number + 1 < 2 ^ 32 := by
  cases i with
  | business sn => exact h
  | partyDetailsAck sn => exact h
  | sequence nextSeqNo =>
      have hpos : 0 < nextSeqNo := h.1
      have hlt : nextSeqNo < 2 ^ 32 := h.2
      change nextSeqNo - 1 + 1 < 2 ^ 32
      omega

/-- What a message makes the handler ask for: nothing, but when a business message leaves a
    hole before it. -/
inductive News (s : Seq) : Inbound → List Request → Prop where
  | next {sn : ℕ} (hnext : sn ≤ s.lastseq + 1) : News s (.business sn) []
  | hasprev {sn : ℕ} (hprev : sn - 1 ∈ s.seenSeqnums) : News s (.business sn) []
  | gap {sn : ℕ} {news : List Request} (hlater : s.lastseq + 1 < sn)
      (hprev : sn - 1 ∉ s.seenSeqnums) (hgap : GapNews (s.sendWaiting sn).1 sn news) :
      News s (.business sn) news
  | partyDetailsAck {sn : ℕ} : News s (.partyDetailsAck sn) []
  | sequence {nextSeqNo : ℕ} : News s (.sequence nextSeqNo) []

/-- `s` receives `i`, sends `o` and becomes `s'`. -/
structure Receives (s : Seq) (i : Inbound) (o news : List Request) (s' : Seq) : Prop where
  asks : News s i news
  lastseq : s'.lastseq = s.lastseq ∨ s'.lastseq = i.number
  seen : s'.seenSeqnums = i.number :: s.seenSeqnums
  mem : ∀ r, r ∈ o ++ s'.requestsWaiting ↔ r ∈ s.requestsWaiting ∨ r ∈ news
  sent : ∀ r ∈ s'.requestsSent, r ∈ s.requestsSent ∨ r ∈ o

/-- Both `lastseq` and what was requested last leave room for one more. -/
def Seq.Room (s : Seq) (sn : ℕ) : Prop :=
  s.lastseq + 1 < 2 ^ 32 ∧ (s.sendWaiting sn).1.lastseqAdj + 1 < 2 ^ 32

theorem checkSeq_business {s s' : Seq} {sn : ℕ} {o : List Request} (hsn : sn + 1 < 2 ^ 32)
    (hroom : s.Room sn) (h : s.checkSeq sn true = some (s', o)) :
    ∃ news, Receives s (.business sn) o news s' := by
  have hwait := sendWaiting_asking s sn
  simp only [Seq.checkSeq, if_true, hwait.lastseq, add32_eq hroom.1] at h
  split at h
  next hlater =>
    obtain ⟨r, hr, heq⟩ := Option.map_eq_some_iff.mp h
    cases heq
    by_cases hprev : sn - 1 ∈ s.seenSeqnums
    · have hcontains : (s.sendWaiting sn).1.seenSeqnums.contains (sub32 sn 1) = true := by
        rw [sub32_eq (by omega) (by omega), hwait.seen]
        simpa using hprev
      simp only [Seq.requestGap, hcontains, Bool.true_or, if_true, Option.some.injEq] at hr
      subst hr
      refine ⟨_, .hasprev hprev, .inl hwait.lastseq, ?_, by simpa using hwait.mem, ?_⟩
      · rw [hwait.seen]
        rfl
      · simpa using hwait.sent
    · obtain ⟨news, hgap, hasking⟩ := requestGap_of_unseen (by omega) hroom.2 (by omega)
        (by rwa [hwait.seen]) hr
      have hall := hwait.trans hasking
      refine ⟨news, .gap hlater hprev hgap, .inl hall.lastseq, ?_, hall.mem, hall.sent⟩
      rw [hall.seen]
      rfl
  next hnext =>
    cases h
    refine ⟨_, .next (by omega), .inr rfl, ?_, hwait.mem, hwait.sent⟩
    rw [hwait.seen]
    rfl

theorem checkSeq_business_exists {s : Seq} {sn : ℕ} (hsn : sn + 1 < 2 ^ 32) (hroom : s.Room sn)
    (hinside : s.lastseq + 1 < sn → sn - 1 ∉ s.seenSeqnums →
      sn ≤ (s.sendWaiting sn).1.lastseqAdj + 1 → ∃ p, s.seenBelow sn = some p) :
    ∃ r, s.checkSeq sn true = some r := by
  have hwait := sendWaiting_asking s sn
  simp only [Seq.checkSeq, if_true, hwait.lastseq, add32_eq hroom.1]
  split
  next hlater =>
    have hlt : sn < 2 ^ 32 := by omega
    obtain ⟨r, hr⟩ := requestGap_exists hlt hroom.2 (by omega) (by
      rw [hwait.seen]
      simpa only [Seq.seenBelow, hwait.seen] using hinside hlater)
    rw [hr]
    exact ⟨_, rfl⟩
  next => exact ⟨_, rfl⟩

theorem inbound_exists {s : Seq} {i : Inbound} (hi : i.InRange)
    (hbusiness : ∀ sn, i = .business sn → ∃ r, s.checkSeq sn true = some r) :
    ∃ r, s.inbound i = some r := by
  cases i with
  | business sn => exact hbusiness sn rfl
  | partyDetailsAck sn =>
      have hwait := sendWaiting_asking { s with lastseq := sn } sn
      have hlt : sn + 1 < 2 ^ 32 := hi
      simp only [Seq.inbound, Seq.checkSeq, if_true, hwait.lastseq, add32_eq hlt]
      rw [if_neg (by omega)]
      exact ⟨_, rfl⟩
  | sequence nextSeqNo =>
      simp only [Seq.inbound, Seq.checkSeq, Bool.false_eq_true, if_false]
      split
      next => simp [Seq.requestGap]
      next => exact ⟨_, rfl⟩

/-- **What one message does**, in any state with room for its number. -/
theorem inbound_receives {s s' : Seq} {i : Inbound} {o : List Request} (hi : i.InRange)
    (hroom : s.Room i.number) (h : s.inbound i = some (s', o)) :
    ∃ news, Receives s i o news s' := by
  cases i with
  | business sn => exact checkSeq_business hi hroom h
  | partyDetailsAck sn =>
      have hwait := sendWaiting_asking { s with lastseq := sn } sn
      have hlt : sn + 1 < 2 ^ 32 := hi
      simp only [Seq.inbound, Seq.checkSeq, if_true, hwait.lastseq, add32_eq hlt] at h
      rw [if_neg (by omega)] at h
      cases h
      refine ⟨_, .partyDetailsAck, .inr rfl, ?_, hwait.mem, hwait.sent⟩
      rw [hwait.seen]
      rfl
  | sequence nextSeqNo =>
      have hpos : 0 < nextSeqNo := hi.1
      have hlt : nextSeqNo < 2 ^ 32 := hi.2
      simp only [Seq.inbound, Seq.checkSeq, Bool.false_eq_true, if_false, Seq.requestGap,
        Bool.not_false, Bool.or_true, if_true, Option.map_some, List.append_nil,
        sub32_eq hlt hpos] at h
      split at h
      next => cases h; exact ⟨_, .sequence, .inl rfl, rfl, by simp, by simp⟩
      next => cases h; exact ⟨_, .sequence, .inr rfl, rfl, by simp, by simp⟩

/-! ### Coverage -/

/-- The largest number received, `n0` at first. -/
def top (n0 : ℕ) (received : List ℕ) : ℕ := received.foldr max n0

@[simp] theorem top_cons (n0 sn : ℕ) (received : List ℕ) :
    top n0 (sn :: received) = max sn (top n0 received) := rfl

theorem le_top {n0 k : ℕ} {received : List ℕ} (hk : k ∈ received) : k ≤ top n0 received := by
  induction received with
  | nil => simp at hk
  | cons sn received ih =>
      rw [top_cons]
      rcases List.mem_cons.mp hk with rfl | hk
      · exact le_max_left _ _
      · exact (ih hk).trans (le_max_right _ _)

theorem start_le_top (n0 : ℕ) (received : List ℕ) : n0 ≤ top n0 received := by
  induction received with
  | nil => exact le_refl n0
  | cons sn received ih => exact ih.trans (le_max_right _ _)

/-- The numbers of the messages received so far. -/
def noteReceived (_ : Seq) : Inbound → List ℕ → List ℕ
  | .business sn, received => sn :: received
  | .partyDetailsAck sn, received => sn :: received
  | .sequence _, received => received

/-- A session, with the numbers received. -/
def gapStep : Seq × List ℕ → Inbound → Option ((Seq × List ℕ) × List Request) :=
  withGhost Seq.inbound noteReceived

/-- A session starts with `lastseq` the number before the first one of it. -/
def sessionStart (n0 : ℕ) : Seq × List ℕ := ({ lastseq := n0 }, [])

/-- Every number up to the largest received was received, or asked for in a request, `out` being
    the requests sent. -/
structure Covered (n0 : ℕ) (out : List Request) (sr : Seq × List ℕ) : Prop where
  asked : ∀ k, n0 < k → k ≤ top n0 sr.2 →
    k ∈ sr.2 ∨ ∃ r ∈ out ++ sr.1.requestsWaiting, r.Covers k
  sized : ∀ r ∈ out ++ sr.1.requestsWaiting, r.Sized

/-- What holds of every session: no request reaches beyond what was received. -/
structure Bounded (n0 : ℕ) (out : List Request) (sr : Seq × List ℕ) : Prop where
  top : top n0 sr.2 + 1 < 2 ^ 32
  lastseq : sr.1.lastseq + 1 < 2 ^ 32
  within : ∀ r ∈ out ++ sr.1.requestsWaiting, r.fromSeqNo + r.count ≤ ILink.top n0 sr.2
  sent : ∀ r ∈ sr.1.requestsSent, r ∈ out

/-- A message leaves no number out, and can be handled.  A message after more than the next
    number: neither `lastseq` nor what was seen may have stepped over what was received, and a
    hole inside what was requested starts after something seen and fits a request. -/
def Asks (n0 : ℕ) (sr : Seq × List ℕ) : Inbound → Prop
  | .business sn =>
      (top n0 sr.2 + 1 < sn → sr.1.lastseq ≤ top n0 sr.2 ∧ sn - 1 ∉ sr.1.seenSeqnums) ∧
      (sr.1.lastseq + 1 < sn → sn - 1 ∉ sr.1.seenSeqnums →
        sn ≤ (sr.1.sendWaiting sn).1.lastseqAdj + 1 →
        ∃ p ∈ sr.1.seenBelow sn, 1 ≤ (sn - (p + 1)) % 2 ^ 16 ∧ (sn - (p + 1)) % 2 ^ 16 ≤ 2500)
  | .partyDetailsAck sn => sn ≤ top n0 sr.2 + 1
  | .sequence _ => True

section Session

variable {n0 : ℕ} {out o : List Request} {sr sr' : Seq × List ℕ} {i : Inbound}

theorem Bounded.start (h : n0 + 1 < 2 ^ 32) : Bounded n0 [] (sessionStart n0) :=
  ⟨h, h, fun r hr => by simp [sessionStart] at hr, fun r hr => by simp [sessionStart] at hr⟩

theorem Covered.start : Covered n0 [] (sessionStart n0) := by
  refine ⟨fun k hk hle => ?_, fun r hr => by simp [sessionStart] at hr⟩
  exact absurd hle (not_le.mpr hk)

theorem lastSeqNumRequested_le {s : Seq} {b : ℕ} (hb : b < 2 ^ 32)
    (h : ∀ r ∈ s.requestsSent, r.fromSeqNo + r.count ≤ b) : s.lastSeqNumRequested ≤ b := by
  unfold Seq.lastSeqNumRequested
  split
  next => exact Nat.zero_le b
  next r hlast =>
    have hle := h r (List.mem_of_getLast? hlast)
    rw [add32_eq (by omega)]
    exact hle

/-- What was requested last is not beyond what was received, whichever request was just sent. -/
theorem Bounded.lastSeqNumRequested (h : Bounded n0 out sr) (sn : ℕ) :
    (sr.1.sendWaiting sn).1.lastSeqNumRequested ≤ ILink.top n0 sr.2 := by
  have hwait := sendWaiting_asking sr.1 sn
  have htop := h.top
  refine lastSeqNumRequested_le (by omega) fun r hr => h.within r ?_
  rw [List.mem_append]
  rcases hwait.sent r hr with hr | hr
  · exact .inl (h.sent r hr)
  · have hmem := (hwait.mem r).mp (List.mem_append_left _ hr)
    simpa using Or.inr hmem

theorem Bounded.room (h : Bounded n0 out sr) (sn : ℕ) : sr.1.Room sn := by
  have hlast := h.lastSeqNumRequested sn
  have hlastseq := h.lastseq
  have htop := h.top
  have hadj : (sr.1.sendWaiting sn).1.lastseqAdj + 1 < 2 ^ 32 := by
    unfold Seq.lastseqAdj
    rw [(sendWaiting_asking sr.1 sn).lastseq]
    omega
  exact ⟨hlastseq, hadj⟩

theorem top_le_noteReceived (s : Seq) (i : Inbound) (received : List ℕ) :
    top n0 received ≤ top n0 (noteReceived s i received) := by
  cases i with
  | business sn => exact le_max_right _ _
  | partyDetailsAck sn => exact le_max_right _ _
  | sequence nextSeqNo => exact le_refl _

/-- What is asked for when a message comes ends before it. -/
theorem News.within {news : List Request} (hi : i.InRange)
    (hnews : News sr.1 i news) :
    ∀ r ∈ news, r.fromSeqNo + r.count ≤ top n0 (noteReceived sr.1 i sr.2) := by
  intro r hr
  cases hnews with
  | next => simp at hr
  | hasprev => simp at hr
  | partyDetailsAck => simp at hr
  | sequence => simp at hr
  | @gap sn _ hlater hprev hgap =>
      refine le_trans ?_ (le_max_left _ _)
      have hsn : sn + 1 < 2 ^ 32 := hi
      cases hgap with
      | @inside p hadj hbelow =>
          have hp := (seenBelow_eq_some hbelow).2
          have hmod := Nat.mod_le (sn - (p + 1)) (2 ^ 16)
          rw [List.mem_singleton.mp hr]
          change p + 1 + (sn - (p + 1)) % 2 ^ 16 ≤ sn
          omega
      | fresh hadj =>
          have hin := (splitGap_within (by omega) r hr).2
          omega

theorem Bounded.step (h : Bounded n0 out sr) (hi : i.InRange)
    (hstep : gapStep sr i = some (sr', o)) : Bounded n0 (out ++ o) sr' := by
  obtain ⟨s, received⟩ := sr
  obtain ⟨s', received'⟩ := sr'
  obtain ⟨hin, rfl⟩ := withGhost_eq_some.mp hstep
  obtain ⟨news, hrec⟩ := inbound_receives hi (h.room i.number) hin
  have hnumber := hi.number
  have htop : ILink.top n0 received + 1 < 2 ^ 32 := h.top
  have hmono : ILink.top n0 received ≤ ILink.top n0 (noteReceived s i received) :=
    top_le_noteReceived s i received
  constructor
  · cases i with
    | business sn =>
        change max sn _ + 1 < 2 ^ 32
        exact (max_add_add_right sn _ 1).symm ▸ max_lt hnumber htop
    | partyDetailsAck sn =>
        change max sn _ + 1 < 2 ^ 32
        exact (max_add_add_right sn _ 1).symm ▸ max_lt hnumber htop
    | sequence nextSeqNo => exact htop
  · change s'.lastseq + 1 < 2 ^ 32
    rcases hrec.lastseq with heq | heq <;> rw [heq]
    · exact h.lastseq
    · exact hnumber
  · intro r hr
    rw [List.append_assoc, List.mem_append] at hr
    rcases hr with hr | hr
    · exact (h.within r (List.mem_append_left _ hr)).trans hmono
    · rcases (hrec.mem r).mp hr with hr | hr
      · exact (h.within r (List.mem_append_right _ hr)).trans hmono
      · exact hrec.asks.within hi r hr
  · intro r hr
    rw [List.mem_append]
    exact (hrec.sent r hr).imp_left (h.sent r)

/-- What was asked for stays asked for. -/
theorem Covered.mono {news : List Request} {s' : Seq} (h : Covered n0 out sr)
    (hrec : Receives sr.1 i o news s') {k : ℕ} (hk : n0 < k) (hle : k ≤ top n0 sr.2) :
    k ∈ sr.2 ∨ ∃ r ∈ (out ++ o) ++ s'.requestsWaiting, r.Covers k := by
  refine (h.asked k hk hle).imp_right ?_
  rintro ⟨r, hr, hcovers⟩
  refine ⟨r, ?_, hcovers⟩
  rw [List.append_assoc, List.mem_append, hrec.mem]
  rw [List.mem_append] at hr
  exact hr.imp_right .inl

/-- All requests are sized when the new ones are. -/
theorem Covered.sized_of {news : List Request} {s' : Seq} (h : Covered n0 out sr)
    (hrec : Receives sr.1 i o news s') (hnews : ∀ r ∈ news, r.Sized) :
    ∀ r ∈ (out ++ o) ++ s'.requestsWaiting, r.Sized := by
  intro r hr
  rw [List.append_assoc, List.mem_append, hrec.mem] at hr
  rcases hr with hr | hr | hr
  · exact h.sized r (List.mem_append_left _ hr)
  · exact h.sized r (List.mem_append_right _ hr)
  · exact hnews r hr

/-- A hole after the largest number received is asked for. -/
theorem News.covers {news : List Request} {sn k : ℕ} (hb : Bounded n0 out sr)
    (hsn : sn + 1 < 2 ^ 32) (hasks : Asks n0 sr (.business sn))
    (hnews : News sr.1 (.business sn) news) (hk : top n0 sr.2 < k) (hlt : k < sn) :
    ∃ r ∈ news, r.Covers k := by
  obtain ⟨hlast, hunseen⟩ := hasks.1 (by omega)
  have hreq := hb.lastSeqNumRequested sn
  have hadj : (sr.1.sendWaiting sn).1.lastseqAdj ≤ top n0 sr.2 := by
    unfold Seq.lastseqAdj
    rw [(sendWaiting_asking sr.1 sn).lastseq]
    exact max_le hlast hreq
  cases hnews with
  | next hnext => omega
  | hasprev hprev => exact absurd hprev hunseen
  | gap hlater hprev hgap =>
      cases hgap with
      | inside hin => omega
      | fresh hout => exact splitGap_covers (by omega) le_rfl (by omega) (by omega)

theorem News.sized {news : List Request} (hasks : Asks n0 sr i) (hnews : News sr.1 i news) :
    ∀ r ∈ news, r.Sized := by
  cases hnews with
  | next => simp
  | hasprev => simp
  | partyDetailsAck => simp
  | sequence => simp
  | @gap sn _ hlater hprev hgap =>
      cases hgap with
      | inside hin hbelow =>
          obtain ⟨p, hp, hsized⟩ := hasks.2 hlater hprev hin
          rw [Seq.seenBelow, (sendWaiting_asking sr.1 sn).seen] at hbelow
          obtain rfl := Option.some_inj.mp (hbelow.symm.trans hp)
          simpa [Request.Sized] using hsized
      | fresh => exact splitGap_sized

/-- **A message that asks** for what it should keeps everything covered. -/
theorem Covered.step (hb : Bounded n0 out sr) (h : Covered n0 out sr) (hi : i.InRange)
    (hasks : Asks n0 sr i) (hstep : gapStep sr i = some (sr', o)) :
    Covered n0 (out ++ o) sr' := by
  obtain ⟨s, received⟩ := sr
  obtain ⟨s', received'⟩ := sr'
  obtain ⟨hin, rfl⟩ := withGhost_eq_some.mp hstep
  obtain ⟨news, hrec⟩ := inbound_receives hi (hb.room i.number) hin
  refine ⟨fun k hk hle => ?_, h.sized_of hrec (hrec.asks.sized hasks)⟩
  by_cases hold : k ≤ top n0 received
  · refine (h.mono hrec hk hold).imp_left fun hmem => ?_
    cases i with
    | business sn => exact List.mem_cons_of_mem _ hmem
    | partyDetailsAck sn => exact List.mem_cons_of_mem _ hmem
    | sequence nextSeqNo => exact hmem
  · cases i with
    | business sn =>
        have hksn : k ≤ sn := by
          change k ≤ max sn (top n0 received) at hle
          omega
        rcases hksn.eq_or_lt with rfl | hlt
        · exact .inl List.mem_cons_self
        · obtain ⟨r, hr, hcovers⟩ := hrec.asks.covers hb hi hasks (not_le.mp hold) hlt
          refine .inr ⟨r, ?_, hcovers⟩
          rw [List.append_assoc, List.mem_append, hrec.mem]
          exact .inr (.inr hr)
    | partyDetailsAck sn =>
        -- the acknowledgement is of the next number
        have hnext : sn ≤ top n0 received + 1 := hasks
        have hksn : k = sn := by
          change k ≤ max sn (top n0 received) at hle
          omega
        exact .inl (hksn ▸ List.mem_cons_self)
    | sequence nextSeqNo => exact absurd hle hold

/-- Such a message can be handled. -/
theorem Asks.exists_step (hb : Bounded n0 out sr) (hi : i.InRange) (hasks : Asks n0 sr i) :
    ∃ r, gapStep sr i = some r := by
  obtain ⟨r, hr⟩ := inbound_exists (s := sr.1) hi (by
    rintro sn rfl
    refine checkSeq_business_exists hi (hb.room sn) fun hlater hprev hin => ?_
    obtain ⟨p, hp, -⟩ := hasks.2 hlater hprev hin
    exact ⟨p, hp⟩)
  unfold gapStep withGhost
  rw [hr]
  exact ⟨_, rfl⟩

/-- The number after the largest received is beyond every request there is. -/
theorem Bounded.not_covers (hb : Bounded n0 out sr) :
    ∀ r ∈ out ++ sr.1.requestsWaiting, ¬ r.Covers (ILink.top n0 sr.2 + 1) := by
  intro r hr hcovers
  have hle := hb.within r hr
  have hlt := hcovers.2
  omega

/-- Only a hole after `lastseq` has the next number asked for. -/
theorem News.lastseq_le {news : List Request} {sn : ℕ} (hb : Bounded n0 out sr)
    (hsn : sn + 1 < 2 ^ 32) (hnews : News sr.1 (.business sn) news) {r : Request} (hr : r ∈ news)
    (hcovers : r.Covers (top n0 sr.2 + 1)) :
    sr.1.lastseq ≤ top n0 sr.2 ∧ sn - 1 ∉ sr.1.seenSeqnums := by
  have hreq := hb.lastSeqNumRequested sn
  have hadj : (sr.1.sendWaiting sn).1.lastseqAdj =
      max sr.1.lastseq (sr.1.sendWaiting sn).1.lastSeqNumRequested := by
    unfold Seq.lastseqAdj
    rw [(sendWaiting_asking sr.1 sn).lastseq]
  have hmax : sr.1.lastseq ≤ (sr.1.sendWaiting sn).1.lastseqAdj := hadj ▸ le_max_left _ _
  cases hnews with
  | next => simp at hr
  | hasprev => simp at hr
  | gap hlater hprev hgap =>
      refine ⟨?_, hprev⟩
      cases hgap with
      | inside hinside =>
          rw [hadj] at hinside
          omega
      | fresh hout =>
          have hfrom := (splitGap_within (by omega) r hr).1
          have hle := hcovers.1
          omega

/-- **A message that does not** leaves the next number out, or asks for too much. -/
theorem asks_of_covered (hb : Bounded n0 out sr) (hi : i.InRange)
    (hstep : gapStep sr i = some (sr', o)) (hafter : Covered n0 (out ++ o) sr') :
    Asks n0 sr i := by
  obtain ⟨s, received⟩ := sr
  obtain ⟨s', received'⟩ := sr'
  obtain ⟨hin, rfl⟩ := withGhost_eq_some.mp hstep
  obtain ⟨news, hrec⟩ := inbound_receives hi (hb.room i.number) hin
  -- a message beyond the next number has the next number asked for now
  have hnew : ∀ sn, noteReceived s i received = sn :: received → top n0 received + 1 < sn →
      ∃ r ∈ news, r.Covers (top n0 received + 1) := by
    intro sn hreceived hbeyond
    have hasked := hafter.asked (top n0 received + 1)
      (Nat.lt_succ_of_le (start_le_top n0 received))
    rw [hreceived] at hasked
    rcases hasked (by rw [top_cons]; omega) with hmem | ⟨r, hr, hcovers⟩
    · rcases List.mem_cons.mp hmem with heq | hmem
      · omega
      · have hle : top n0 received + 1 ≤ top n0 received := le_top hmem
        omega
    · rw [List.append_assoc, List.mem_append, hrec.mem] at hr
      rcases hr with hr | hr | hr
      · exact absurd hcovers (hb.not_covers r (List.mem_append_left _ hr))
      · exact absurd hcovers (hb.not_covers r (List.mem_append_right _ hr))
      · exact ⟨r, hr, hcovers⟩
  have hsized : ∀ r ∈ news, r.Sized := by
    intro r hr
    refine hafter.sized r ?_
    rw [List.append_assoc, List.mem_append, hrec.mem]
    exact .inr (.inr hr)
  cases i with
  | sequence nextSeqNo => trivial
  | partyDetailsAck sn =>
      change sn ≤ top n0 received + 1
      by_contra hbeyond
      obtain ⟨r, hr, -⟩ := hnew sn rfl (by omega)
      cases hrec.asks
      simp at hr
  | business sn =>
      constructor
      · intro hbeyond
        obtain ⟨r, hr, hcovers⟩ := hnew sn rfl hbeyond
        exact hrec.asks.lastseq_le hb hi.number hr hcovers
      · intro hlater hprev hinside
        cases hrec.asks with
        | next => exact absurd hlater (by omega)
        | hasprev hseen => exact absurd hseen hprev
        | gap _ _ hgap =>
            cases hgap with
            | fresh hout => exact absurd hinside (by omega)
            | @inside p _ hbelow =>
                rw [Seq.seenBelow, (sendWaiting_asking s sn).seen] at hbelow
                exact ⟨p, hbelow, hsized _ List.mem_cons_self⟩

/-! ### Sessions -/

/-- Every session is bounded. -/
theorem run_bounded {es : List Inbound} (h0 : n0 + 1 < 2 ^ 32) (hes : ∀ e ∈ es, e.InRange)
    (hrun : run gapStep (sessionStart n0) es = some (sr, out)) : Bounded n0 out sr :=
  run_induction (I := fun _ os s => Bounded n0 os s) (P := fun _ e => e.InRange) (.start h0)
    (fun _ _ _ _ _ _ hb hi hstep => hb.step hi hstep) (allSteps_of_forall hes _) hrun

/-- A session whose messages all ask for what they should does not abort, and is covered. -/
theorem run_covered {es : List Inbound} (h0 : n0 + 1 < 2 ^ 32) (hes : ∀ e ∈ es, e.InRange)
    (hasks : AllSteps gapStep (Asks n0) (sessionStart n0) es) :
    ∃ sr out, run gapStep (sessionStart n0) es = some (sr, out) ∧
      Bounded n0 out sr ∧ Covered n0 out sr := by
  refine exists_run_induction (I := fun os s => Bounded n0 os s ∧ Covered n0 os s)
    ⟨.start h0, .start⟩ (fun os s e h hP => ?_) (allSteps_and (allSteps_of_forall hes _) hasks)
  obtain ⟨⟨s', o⟩, hstep⟩ := hP.2.exists_step h.1 hP.1
  exact ⟨_, hstep, h.1.step hP.1 hstep, h.2.step h.1 hP.1 hP.2 hstep⟩

end Session

/-- **Nothing lost goes unasked.**  A session does not abort, and after each of its messages
    every number up to the largest received was received or lies in a request of 1 to 2500
    messages that was sent or waits, exactly when each message `Asks` in the state it finds. -/
theorem nothing_unasked_iff (n0 : ℕ) (h0 : n0 + 1 < 2 ^ 32) (es : List Inbound)
    (hes : ∀ e ∈ es, e.InRange) :
    ((∃ r, run gapStep (sessionStart n0) es = some r) ∧
      ∀ past rest sr out, es = past ++ rest →
        run gapStep (sessionStart n0) past = some (sr, out) → Covered n0 out sr) ↔
      AllSteps gapStep (Asks n0) (sessionStart n0) es := by
  constructor
  · rintro ⟨⟨⟨t, os⟩, hrun⟩, hcovered⟩
    refine allSteps_of_reached fun past e rest sr out hsplit hpast => ?_
    have hin : ∀ e ∈ past, e.InRange := fun e he => hes e (hsplit ▸ List.mem_append_left _ he)
    have hfull : es = (past ++ [e]) ++ rest := by simpa using hsplit
    -- the message was handled, since the session did not abort
    rw [hfull] at hrun
    obtain ⟨sr', out', -, hrun', -⟩ := run_append.mp hrun
    obtain ⟨m, o₁, o₂, hpast', hstep, rfl⟩ := run_concat.mp hrun'
    cases hpast.symm.trans hpast'
    exact asks_of_covered (run_bounded h0 hin hpast) (hes e (hsplit ▸ by simp)) hstep
      (hcovered _ rest sr' _ hfull hrun')
  · intro hasks
    obtain ⟨t, os, hrun, -⟩ := run_covered h0 hes hasks
    refine ⟨⟨_, hrun⟩, fun past rest sr out hsplit hpast => ?_⟩
    rw [hsplit, allSteps_append] at hasks
    have hin : ∀ e ∈ past, e.InRange := fun e he => hes e (hsplit ▸ List.mem_append_left _ he)
    obtain ⟨sr', out', hpast', -, hcovered⟩ := run_covered h0 hin hasks.1
    cases hpast.symm.trans hpast'
    exact hcovered

instance (i : Inbound) : Decidable i.InRange :=
  match i with
  | .business sn => inferInstanceAs (Decidable (sn + 1 < 2 ^ 32))
  | .partyDetailsAck sn => inferInstanceAs (Decidable (sn + 1 < 2 ^ 32))
  | .sequence nextSeqNo => inferInstanceAs (Decidable (0 < nextSeqNo ∧ nextSeqNo < 2 ^ 32))

instance decidableAsks (n0 : ℕ) (sr : Seq × List ℕ) (i : Inbound) : Decidable (Asks n0 sr i) :=
  match i with
  | .business _ => inferInstanceAs (Decidable (_ ∧ _))
  | .partyDetailsAck _ => inferInstanceAs (Decidable (_ ≤ _))
  | .sequence _ => inferInstanceAs (Decidable True)

/-- Two messages are lost, asked for and received again, the second first. -/
theorem retransmitted_session_covered :
    (∃ r, run gapStep (sessionStart 0)
      [.business 1, .business 4, .business 3, .business 2, .sequence 5] = some r) ∧
    ∀ past rest sr out,
      [.business 1, .business 4, .business 3, .business 2, .sequence 5] = past ++ rest →
        run gapStep (sessionStart 0) past = some (sr, out) → Covered 0 out sr :=
  (nothing_unasked_iff 0 (by decide)
    [.business 1, .business 4, .business 3, .business 2, .sequence 5] (by decide)).mpr
    (by decide +kernel)

/-- The exchange sent 1 and 2, and 2 was lost.  The heartbeat that says so makes 2 the last
    number, and nobody asks for it when 3 comes. -/
theorem heartbeat_steps_over_lost :
    ∃ sr out, run gapStep (sessionStart 0) [.business 1, .sequence 3, .business 3] =
        some (sr, out) ∧
      out = [] ∧ sr.1.requestsWaiting = [] ∧ ¬ Covered 0 out sr := by
  have hrun : run gapStep (sessionStart 0) [.business 1, .sequence 3, .business 3] =
      some (({ lastseq := 3, seenSeqnums := [3, 2, 1] }, [3, 1]), []) := by decide +kernel
  refine ⟨_, _, hrun, rfl, rfl, fun hcovered => ?_⟩
  rcases hcovered.asked 2 (by decide) (by decide) with hmem | ⟨r, hr, -⟩
  · exact absurd hmem (by decide)
  · simp at hr

end KasparHft.ILink
