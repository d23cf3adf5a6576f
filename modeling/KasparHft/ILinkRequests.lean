import KasparHft.ILinkGaps

/-!
# What `check_seq` asks for again

`lastseq` should only grow, and no request should ask for a number that was received.
`check_seq` puts any number up to `lastseq + 1` into `lastseq`, an old or repeated one too, and
leaves `lastseq` behind where a filled gap joins what came after it; the next gap then starts
from there.  A gap of more than 2500 numbers is cut, and a part that waits is sent as it was
cut, whatever has come in since.  Only the request inside a retransmission is always new: it
starts after something seen.

`Log` says what the messages come to, without a request.  While every message comes in its
place in the log, nothing is asked for again: `check_seq` keeps to the log.
-/

namespace KasparHft.ILink

open Machine

variable {n0 sn : ℕ} {s s' : Seq} {sr sr' : Seq × List ℕ} {i : Inbound} {o out : List Request}

/-- The request asks for nothing that was received. -/
def Request.New (r : Request) (received : List ℕ) : Prop := ∀ k ∈ received, ¬ r.Covers k

/-- The first request of the gap before `sn`. -/
def Seq.firstOfGap (s : Seq) (sn : ℕ) : Request :=
  ⟨add32 s.lastseqAdj 1, min 2500 (sub32 (sub32 sn s.lastseqAdj) 1)⟩

/-! ### The requests of one message -/

/-- The other requests of the gap, which wait. -/
def Seq.restOfGap (s : Seq) (sn : ℕ) : List Request :=
  let count := sub32 (sub32 sn s.lastseqAdj) 1
  splitGap (count - 1) (add32 (add32 s.lastseqAdj 1) (min 2500 count)) (count - min 2500 count)

/-- The requests sent for a gap before `sn`, and what waits and was sent after. -/
inductive GapSent (s : Seq) (sn : ℕ) : Seq × List Request → Prop where
  | hasprev (hprev : sub32 sn 1 ∈ s.seenSeqnums) : GapSent s sn (s, [])
  | inside {p : ℕ} (hprev : sub32 sn 1 ∉ s.seenSeqnums) (hadj : sn ≤ add32 s.lastseqAdj 1)
      (hbelow : s.seenBelow sn = some p) :
      GapSent s sn (s, [⟨add32 p 1, sub32 sn (add32 p 1) % 2 ^ 16⟩])
  | fresh (hprev : sub32 sn 1 ∉ s.seenSeqnums) (hadj : add32 s.lastseqAdj 1 < sn) :
      GapSent s sn ({ s with
        requestsSent := s.requestsSent ++ [s.firstOfGap sn]
        requestsWaiting := s.requestsWaiting ++ s.restOfGap sn }, [s.firstOfGap sn])

theorem GapSent.lastseq {r : Seq × List Request} (h : GapSent s sn r) :
    r.1.lastseq = s.lastseq ∧ r.1.seenSeqnums = s.seenSeqnums := by
  cases h with
  | hasprev | inside | fresh => exact ⟨rfl, rfl⟩

theorem requestGap_sent {r : Seq × List Request} (h : s.requestGap sn true = some r) :
    GapSent s sn r := by
  have hmax : max s.lastseq s.lastSeqNumRequested = s.lastseqAdj := rfl
  simp only [Seq.requestGap, Bool.not_true, Bool.or_false, hmax, List.contains_eq_mem,
    decide_eq_true_eq] at h
  split at h
  next hprev =>
    cases h
    exact .hasprev hprev
  next hprev =>
    split at h
    next hadj =>
      split at h
      next => cases h
      next p hbelow =>
        split at h
        next => cases h
        next =>
          cases h
          exact .inside hprev hadj hbelow
    next hadj =>
      split at h
      next => cases h
      next hcount =>
        obtain ⟨n, hn⟩ := Nat.exists_eq_succ_of_ne_zero hcount
        have hrest : s.restOfGap sn = splitGap n
            (add32 (add32 s.lastseqAdj 1) (min 2500 (n + 1))) (n + 1 - min 2500 (n + 1)) := by
          unfold Seq.restOfGap
          rw [hn]
          rfl
        have hfresh := GapSent.fresh hprev (Nat.not_le.mp hadj)
        unfold Seq.firstOfGap at hfresh
        rw [hrest, hn] at hfresh
        rw [hn, splitGap, if_neg (Nat.succ_ne_zero n)] at h
        cases h
        exact hfresh

/-- **What `check_seq` does** with the number of a business message. -/
theorem checkSeq_sent (h : s.checkSeq sn true = some (s', o)) :
    s'.seenSeqnums = sn :: s.seenSeqnums ∧
      ((¬ add32 s.lastseq 1 < sn ∧ s'.lastseq = sn ∧ o = (s.sendWaiting sn).2 ∧
          s'.requestsSent = (s.sendWaiting sn).1.requestsSent ∧
          s'.requestsWaiting = (s.sendWaiting sn).1.requestsWaiting) ∨
        (add32 s.lastseq 1 < sn ∧ s'.lastseq = s.lastseq ∧
          ∃ r, GapSent (s.sendWaiting sn).1 sn r ∧ o = (s.sendWaiting sn).2 ++ r.2 ∧
            s'.requestsSent = r.1.requestsSent ∧ s'.requestsWaiting = r.1.requestsWaiting)) := by
  have hwait := sendWaiting_asking s sn
  simp only [Seq.checkSeq, if_true, hwait.lastseq] at h
  split at h
  next hlater =>
    obtain ⟨r, hr, heq⟩ := Option.map_eq_some_iff.mp h
    cases heq
    have hgap := requestGap_sent hr
    obtain ⟨hlastseq, hseen⟩ := hgap.lastseq
    refine ⟨?_, .inr ⟨hlater, hlastseq.trans hwait.lastseq, r, hgap, rfl, rfl, rfl⟩⟩
    rw [hseen, hwait.seen]
  next hnext =>
    cases h
    refine ⟨?_, .inl ⟨hnext, rfl, rfl, rfl, rfl⟩⟩
    rw [hwait.seen]

/-- The request inside a retransmission starts after the largest number seen below, and ends
    before `sn`. -/
theorem inside_new {received : List ℕ} {p : ℕ} (hsn : sn < 2 ^ 32)
    (hseen : ∀ k ∈ received, k ∈ sn :: s.seenSeqnums) (hbelow : s.seenBelow sn = some p) :
    Request.New ⟨add32 p 1, sub32 sn (add32 p 1) % 2 ^ 16⟩ received := by
  intro k hk hcovers
  have hp := (seenBelow_eq_some hbelow).2
  have hfrom : p + 1 ≤ k := by
    have hle := hcovers.1
    rwa [add32_eq (by omega)] at hle
  have hto : k < sn := by
    have hlt := hcovers.2
    have hmod := Nat.mod_le (sub32 sn (p + 1)) (2 ^ 16)
    dsimp only at hlt
    rw [add32_eq (by omega)] at hlt
    rw [sub32_eq hsn (by omega)] at hlt hmod
    omega
  rcases List.mem_cons.mp (hseen k hk) with rfl | hmem
  · omega
  · -- `p` is the largest seen below `sn`
    have hle : k ≤ p := (List.max?_le_iff hbelow).mp (le_refl p) k (by simpa using ⟨hmem, hto⟩)
    omega

/-- `lastseq` has not decreased, and the requests `o` ask for nothing that was received. -/
structure AskedNew (sr : Seq × List ℕ) (o : List Request) (sr' : Seq × List ℕ) : Prop where
  lastseq : sr.1.lastseq ≤ sr'.1.lastseq
  requests : ∀ r ∈ o, r.New sr'.2

/-- The numbers of a session are `uint32_t`. -/
def Inbound.Uint32 : Inbound → Prop
  | .business sn => sn < 2 ^ 32
  | .partyDetailsAck sn => sn < 2 ^ 32
  | .sequence nextSeqNo => nextSeqNo < 2 ^ 32

instance : DecidablePred Inbound.Uint32
  | .business sn => inferInstanceAs (Decidable (sn < 2 ^ 32))
  | .partyDetailsAck sn => inferInstanceAs (Decidable (sn < 2 ^ 32))
  | .sequence nextSeqNo => inferInstanceAs (Decidable (nextSeqNo < 2 ^ 32))

/-- A heartbeat only sets `lastseq`. -/
theorem checkSeq_heartbeat (s : Seq) (sn : ℕ) : s.checkSeq sn false =
    some ({ s with
      lastseq := if add32 s.lastseq 1 < sn then s.lastseq else sn
      seenSeqnums := sn :: s.seenSeqnums }, []) := by
  simp only [Seq.checkSeq, Bool.false_eq_true, if_false, Seq.requestGap, Bool.not_false,
    Bool.or_true, if_true, Option.map_some, List.append_nil]
  split
  · rfl
  · rfl

/-! ### What the messages come to -/

/-- What the messages so far come to: the number of the last one in line, the numbers told of by
    messages and heartbeats, those received; and the last gap, after `base` and before the
    number `top` that opened it. -/
structure Log where
  line : ℕ
  told : List ℕ := []
  received : List ℕ := []
  base : ℕ := 0
  top : ℕ := 0

namespace Log

/-- The number in line after `sn`. -/
def reach (l : Log) (sn : ℕ) : ℕ := if sn ≤ l.line + 1 then sn else l.line

/-- A message opens a gap: it is beyond the next number in line and the last gap, and the number
    before it was not told of. -/
def Opens (l : Log) (sn : ℕ) : Prop := max l.line l.top + 1 < sn ∧ sn - 1 ∉ l.told

instance (l : Log) (sn : ℕ) : Decidable (l.Opens sn) := inferInstanceAs (Decidable (_ ∧ _))

/-- A message of this number is received. -/
def receive (l : Log) (sn line : ℕ) : Log :=
  { l with line := line, told := sn :: l.told, received := sn :: l.received }

/-- One message more.  One that acknowledges party details is always in line. -/
def note (l : Log) : Inbound → Log
  | .business sn =>
      if l.Opens sn then { l.receive sn (l.reach sn) with base := max l.line l.top, top := sn }
      else l.receive sn (l.reach sn)
  | .partyDetailsAck sn => l.receive sn sn
  | .sequence nextSeqNo =>
      { l with line := l.reach (nextSeqNo - 1), told := (nextSeqNo - 1) :: l.told }

/-- A gap is asked for in parts of 2500 numbers; where the parts end, but the last. -/
def partEnds (l : Log) : List ℕ :=
  ((List.range ((l.top - l.base) / 2500)).map fun j => l.base + 2500 * (j + 1)).filter
    (· + 1 < l.top)

theorem mem_partEnds {l : Log} {e : ℕ} :
    e ∈ l.partEnds ↔ l.base < e ∧ e + 1 < l.top ∧ (e - l.base) % 2500 = 0 := by
  simp only [partEnds, List.mem_filter, List.mem_map, List.mem_range, decide_eq_true_eq]
  constructor
  · rintro ⟨⟨j, hj, rfl⟩, hlt⟩
    omega
  · rintro ⟨hbase, hlt, hmod⟩
    exact ⟨⟨(e - l.base) / 2500 - 1, by omega, by omega⟩, hlt⟩

/-- A number of the gap comes after the ends of the parts before it. -/
def InParts (l : Log) (sn : ℕ) : Prop :=
  sn ≤ l.top → ∀ e ∈ l.partEnds, e < sn → e ∈ l.received

/-- A message has its place: its number is in range and not below the line; in a gap it is in
    order of the parts; one that opens a gap finds the end of every part of the last one
    received, and no message received between the line, or the last gap, and itself. -/
def InPlace (l : Log) : Inbound → Prop
  | .business sn =>
      sn + 1 < 2 ^ 32 ∧ l.line ≤ sn ∧ l.InParts sn ∧
        (l.Opens sn → (∀ e ∈ l.partEnds, e ∈ l.received) ∧
          ∀ k ∈ l.received, k ≤ max l.line l.top ∨ sn ≤ k)
  | .partyDetailsAck sn => sn + 1 < 2 ^ 32 ∧ l.line ≤ sn ∧ l.InParts sn
  | .sequence nextSeqNo => 0 < nextSeqNo ∧ nextSeqNo < 2 ^ 32 ∧ l.line ≤ nextSeqNo - 1

instance (l : Log) (sn : ℕ) : Decidable (l.InParts sn) := inferInstanceAs (Decidable (_ → _))

instance (l : Log) : DecidablePred l.InPlace
  | .business _ | .partyDetailsAck _ | .sequence _ => inferInstanceAs (Decidable (_ ∧ _))

/-- Every message has its place after those before it. -/
def AllInPlace : Log → List Inbound → Prop
  | _, [] => True
  | l, i :: es => l.InPlace i ∧ (l.note i).AllInPlace es

instance decidableAllInPlace : ∀ (l : Log) (es : List Inbound), Decidable (l.AllInPlace es)
  | _, [] => inferInstanceAs (Decidable True)
  | l, i :: es =>
      have := decidableAllInPlace (l.note i) es
      inferInstanceAs (Decidable (_ ∧ _))

end Log

/-! ### The parts of a gap -/

theorem splitGap_fuel {total fuel fromSeqNo : ℕ} (hfuel : total ≤ fuel) :
    splitGap fuel fromSeqNo total = splitGap total fromSeqNo total := by
  induction total using Nat.strong_induction_on generalizing fuel fromSeqNo with
  | h total ih =>
      cases total with
      | zero => cases fuel <;> rfl
      | succ t =>
          obtain ⟨f, rfl⟩ := Nat.exists_eq_add_of_le' (show 1 ≤ fuel by omega)
          have hpart : 1 ≤ min 2500 (t + 1) := by omega
          simp only [splitGap, if_neg (Nat.succ_ne_zero t)]
          rw [ih (t + 1 - min 2500 (t + 1)) (by omega) (show _ ≤ f by omega),
            ih (t + 1 - min 2500 (t + 1)) (by omega) (show _ ≤ t by omega)]

/-- The requests for the numbers from `first` to before `last`. -/
def partsOf (first last : ℕ) : List Request := splitGap (last - first) first (last - first)

theorem partsOf_self (last : ℕ) : partsOf last last = [] := by
  unfold partsOf
  rw [Nat.sub_self]
  rfl

theorem partsOf_cons {first last : ℕ} (hlt : first < last) (hlast : last < 2 ^ 32) :
    partsOf first last = ⟨first, min 2500 (last - first)⟩ ::
      partsOf (first + min 2500 (last - first)) last := by
  obtain ⟨n, hn⟩ := Nat.exists_eq_add_of_le' (show 1 ≤ last - first by omega)
  have hrest : last - (first + min 2500 (last - first)) =
      last - first - min 2500 (last - first) := by omega
  unfold partsOf
  rw [hrest, ← @splitGap_fuel _ n (first + min 2500 (last - first)) (by omega), hn,
    splitGap_succ (Nat.succ_ne_zero n) (by omega)]

theorem lastSeqNumRequested_append (req : Request)
    (hsent : s'.requestsSent = s.requestsSent ++ [req])
    (hlt : req.fromSeqNo + req.count < 2 ^ 32) :
    s'.lastSeqNumRequested = req.fromSeqNo + req.count := by
  unfold Seq.lastSeqNumRequested
  rw [hsent, List.getLast?_concat]
  exact add32_eq hlt

/-! ### `check_seq` keeps to the log -/

/-- Of the last gap the numbers before `next` were asked for, the parts from `next` on wait, and
    nothing of these was received, nor the number before them. -/
structure Pending (l : Log) (received : List ℕ) (s : Seq) (next : ℕ) : Prop where
  le : next ≤ l.top
  requested : s.lastSeqNumRequested = next
  waiting : s.requestsWaiting = partsOf next l.top
  ends : next < l.top → next - 1 ∈ l.partEnds
  unreceived : next < l.top → ∀ k ∈ received, next ≤ k + 1 → l.top ≤ k

section Pending

variable {l l' : Log} {received : List ℕ} {next : ℕ}

theorem Pending.congr (h : Pending l received s next) (hbase : l'.base = l.base)
    (htop : l'.top = l.top) (hsent : s'.requestsSent = s.requestsSent)
    (hwaiting : s'.requestsWaiting = s.requestsWaiting) : Pending l' received s' next where
  le := htop ▸ h.le
  requested := by
    unfold Seq.lastSeqNumRequested
    rw [hsent]
    exact h.requested
  waiting := by rw [hwaiting, htop, h.waiting]
  ends := by
    unfold Log.partEnds
    rw [hbase, htop]
    exact h.ends
  unreceived := by
    rw [htop]
    exact h.unreceived

/-- A number that is in order of the parts makes the next one be sent, or leaves them waiting. -/
theorem Pending.sendWaiting (h : Pending l l.received s next) (hsn : sn + 1 < 2 ^ 32)
    (htop : l.top < 2 ^ 32) (hparts : l.InParts sn) :
    ∃ next', Pending l (sn :: l.received) (s.sendWaiting sn).1 next' ∧
      ∀ r ∈ (s.sendWaiting sn).2, r.New (sn :: l.received) := by
  rcases h.le.eq_or_lt with heq | hlt
  · have hnone : s.requestsWaiting = [] := by rw [h.waiting, heq, partsOf_self]
    have hsame : s.sendWaiting sn = (s, []) := by
      unfold Seq.sendWaiting
      rw [hnone]
    rw [hsame]
    exact ⟨next, ⟨h.le, h.requested, h.waiting, fun hlt => absurd heq hlt.ne,
      fun hlt => absurd heq hlt.ne⟩, fun r hr => nomatch hr⟩
  · obtain ⟨hbase, hbelow, hmod⟩ := Log.mem_partEnds.mp (h.ends hlt)
    have hunreceived := h.unreceived hlt
    have hcut := h.waiting
    rw [partsOf_cons hlt htop] at hcut
    unfold Seq.sendWaiting
    rw [hcut]
    dsimp only
    split
    next hsend =>
      -- the number before the part: nothing of the part was received
      rw [sub32_eq (by omega) (by omega)] at hsend
      refine ⟨next + min 2500 (l.top - next), ⟨by omega, ?_, rfl, fun hmore => ?_, ?_⟩, ?_⟩
      · have hto : next + min 2500 (l.top - next) < 2 ^ 32 := by omega
        exact lastSeqNumRequested_append (s := s) ⟨next, _⟩ rfl hto
      · refine Log.mem_partEnds.mpr ⟨by omega, by omega, ?_⟩
        rw [show next + min 2500 (l.top - next) - 1 - l.base = next - 1 - l.base + 2500 by omega,
          Nat.add_mod_right, hmod]
      · intro _ k hk hle
        rcases List.mem_cons.mp hk with rfl | hk
        · omega
        · exact hunreceived k hk (by omega)
      · intro r hr k hk hcovers
        obtain rfl := List.mem_singleton.mp hr
        have hfrom : next ≤ k := hcovers.1
        have hto : k < next + min 2500 (l.top - next) := hcovers.2
        rcases List.mem_cons.mp hk with rfl | hk
        · omega
        · have hle := hunreceived k hk (by omega)
          omega
    next hsend =>
      rw [sub32_eq (by omega) (by omega)] at hsend
      refine ⟨next, ⟨h.le, h.requested, h.waiting, h.ends, fun _ k hk hle => ?_⟩,
        fun r hr => nomatch hr⟩
      rcases List.mem_cons.mp hk with rfl | hk
      · -- a number of the parts that wait would come before its turn
        by_contra hin
        have hend := hparts (by omega) (next - 1) (h.ends hlt) (by omega)
        have hle := hunreceived (next - 1) hend (by omega)
        omega
      · exact hunreceived k hk hle

end Pending

/-- What `check_seq` keeps is what the messages come to. -/
structure Log.Tracks (l : Log) (s : Seq) : Prop where
  lastseq : s.lastseq = l.line
  seen : s.seenSeqnums = l.told
  heard : ∀ k ∈ l.received, k ∈ l.told
  top : l.top = 0 ∨ l.top ∈ l.told
  room : l.top + 1 < 2 ^ 32
  pending : ∃ next, Pending l l.received s next

section Tracks

variable {l : Log} {next : ℕ} {s₁ : Seq}

/-- A message that opens no gap. -/
theorem Log.Tracks.receive (h : l.Tracks s) {line : ℕ}
    (hpending : Pending l (sn :: l.received) s₁ next) (hline : s'.lastseq = line)
    (hseen : s'.seenSeqnums = sn :: s.seenSeqnums) (hsent : s'.requestsSent = s₁.requestsSent)
    (hwaiting : s'.requestsWaiting = s₁.requestsWaiting) : (l.receive sn line).Tracks s' where
  lastseq := hline
  seen := by rw [hseen, h.seen]; rfl
  heard := fun k hk => List.cons_subset_cons sn h.heard hk
  top := h.top.imp_right (List.mem_cons_of_mem sn)
  room := h.room
  pending := ⟨next, hpending.congr rfl rfl hsent hwaiting⟩

/-- Where the handler takes a number for a new gap, it is one, and no part of the last gap waits. -/
theorem Log.Tracks.opens (h : l.Tracks s) (hpending : Pending l (sn :: l.received) s₁ next)
    (hin : l.InPlace (.business sn)) (hline : l.line + 1 < sn) (hnext : next + 1 < sn)
    (hprev : sn - 1 ∉ l.told) : next = l.top ∧ l.Opens sn := by
  obtain ⟨-, -, hparts, hopens⟩ := hin
  have hdone : l.top + 1 < sn → l.Opens sn := fun htop => ⟨by omega, hprev⟩
  have hnextTop : next = l.top := by
    by_contra hne
    have hlt : next < l.top := lt_of_le_of_ne hpending.le hne
    have hends := hpending.ends hlt
    have hpos := (Log.mem_partEnds.mp hends).1
    -- the number before the parts that wait was not received
    have hgone : next - 1 ∉ l.received := fun hmem => by
      have hle := hpending.unreceived hlt (next - 1) (List.mem_cons_of_mem sn hmem) (by omega)
      omega
    by_cases htop : sn ≤ l.top
    · exact hgone (hparts htop (next - 1) hends (by omega))
    · have hafter : sn ≠ l.top + 1 := by
        rintro rfl
        exact hprev (h.top.resolve_left (by omega))
      exact hgone ((hopens (hdone (by omega))).1 (next - 1) hends)
  exact ⟨hnextTop, hdone (by omega)⟩

section Gap

variable {base : ℕ}

theorem gapCount_eq (hadj : s.lastseqAdj = base) (hbelow : base < sn) (hsn : sn < 2 ^ 32) :
    sub32 (sub32 sn s.lastseqAdj) 1 = sn - base - 1 := by
  rw [hadj, sub32_eq hsn (by omega), sub32_eq (by omega) (by omega)]

theorem firstOfGap_eq (hadj : s.lastseqAdj = base) (hbelow : base < sn) (hsn : sn < 2 ^ 32) :
    s.firstOfGap sn = ⟨base + 1, min 2500 (sn - base - 1)⟩ := by
  unfold Seq.firstOfGap
  rw [gapCount_eq hadj hbelow hsn, hadj, add32_eq (by omega)]

/-- What does not go into the first part. -/
theorem restOfGap_eq (hadj : s.lastseqAdj = base) (hbelow : base + 1 < sn) (hsn : sn < 2 ^ 32) :
    s.restOfGap sn = partsOf (base + 1 + min 2500 (sn - base - 1)) sn := by
  have htotal : sn - (base + 1 + min 2500 (sn - base - 1)) =
      sn - base - 1 - min 2500 (sn - base - 1) := by omega
  unfold Seq.restOfGap partsOf
  dsimp only
  rw [gapCount_eq hadj (by omega) hsn, hadj, add32_eq (show base + 1 < 2 ^ 32 by omega),
    add32_eq (by omega), htotal, splitGap_fuel (by omega)]

end Gap

/-- A new gap: its first part is asked for, the others wait. -/
theorem Log.Tracks.fresh (h : l.Tracks s) (hpending : Pending l (sn :: l.received) s₁ l.top)
    (hline : s₁.lastseq = l.line) (hin : l.InPlace (.business sn)) (hopens : l.Opens sn)
    (hlastseq : s'.lastseq = l.line) (hseen : s'.seenSeqnums = sn :: s.seenSeqnums)
    (hsent : s'.requestsSent = s₁.requestsSent ++ [s₁.firstOfGap sn])
    (hwaiting : s'.requestsWaiting = s₁.requestsWaiting ++ s₁.restOfGap sn) :
    (l.note (.business sn)).Tracks s' ∧ (s₁.firstOfGap sn).New (sn :: l.received) := by
  obtain ⟨hsn, -, -, hnews⟩ := hin
  obtain ⟨-, hnews⟩ := hnews hopens
  have hbelow := hopens.1
  have hadj : s₁.lastseqAdj = max l.line l.top := by
    unfold Seq.lastseqAdj
    rw [hline, hpending.requested]
  have hnote : l.note (.business sn) =
      { l.receive sn l.line with base := max l.line l.top, top := sn } := by
    have hreach : l.reach sn = l.line := if_neg (by omega)
    simp only [Log.note, if_pos hopens, hreach]
  rw [hnote]
  generalize max l.line l.top = base at hadj hnews hbelow
  have hfirst := firstOfGap_eq hadj (by omega : base < sn) (by omega)
  rw [hfirst] at hsent ⊢
  rw [restOfGap_eq hadj hbelow (by omega), hpending.waiting, partsOf_self, List.nil_append]
    at hwaiting
  have hto : base + 1 + min 2500 (sn - base - 1) < 2 ^ 32 := by omega
  constructor
  · refine ⟨hlastseq, by rw [hseen, h.seen]; rfl, fun k hk => List.cons_subset_cons sn h.heard hk,
      .inr List.mem_cons_self, hsn, base + 1 + min 2500 (sn - base - 1), ?_⟩
    refine ⟨by dsimp only; omega, lastSeqNumRequested_append ⟨base + 1, _⟩ hsent hto, hwaiting,
      fun hmore => ?_, fun hmore k hk hle => ?_⟩
    · dsimp only at hmore
      refine Log.mem_partEnds.mpr ⟨by dsimp only; omega, by dsimp only; omega, ?_⟩
      dsimp only
      rw [show base + 1 + min 2500 (sn - base - 1) - 1 - base = 2500 by omega]
    · dsimp only at hmore ⊢
      rcases List.mem_cons.mp hk with rfl | hk
      · exact le_refl _
      · exact (hnews k hk).resolve_left (by omega)
  · rintro k hk ⟨hfrom, hlt⟩
    dsimp only at hfrom hlt
    rcases List.mem_cons.mp hk with rfl | hk
    · omega
    · rcases hnews k hk with hle | hle
      · omega
      · omega

/-- **A business message in its place.** -/
theorem Log.Tracks.business (h : l.Tracks s) (hin : l.InPlace (.business sn))
    (hs : s.checkSeq sn true = some (s', o)) :
    (l.note (.business sn)).Tracks s' ∧ s.lastseq ≤ s'.lastseq ∧
      ∀ r ∈ o, r.New (sn :: l.received) := by
  obtain ⟨hsn, hline, hparts, -⟩ := id hin
  obtain ⟨next, hpending⟩ := h.pending
  obtain ⟨next', hpending', hnew⟩ := hpending.sendWaiting hsn (by have := h.room; omega) hparts
  have hwait := sendWaiting_asking s sn
  have hle := hpending'.le
  have hroom := h.room
  obtain ⟨hseen, ⟨hnext, hlast, rfl, hsent, hwaiting⟩ |
    ⟨hlater, hlast, r, hgap, rfl, hsent, hwaiting⟩⟩ := checkSeq_sent hs
  · -- the message is in line
    rw [h.lastseq, add32_eq (by omega)] at hnext
    have hnone : ¬ l.Opens sn := fun hopens => by have := hopens.1; omega
    have hreach : l.reach sn = sn := if_pos (by omega)
    refine ⟨?_, by rw [hlast, h.lastseq]; exact hline, hnew⟩
    simp only [Log.note, if_neg hnone, hreach]
    exact h.receive hpending' hlast hseen hsent hwaiting
  · rw [h.lastseq, add32_eq (by omega)] at hlater
    have hreach : l.reach sn = l.line := if_neg (by omega)
    have hlast : s'.lastseq = l.line := hlast.trans h.lastseq
    have hkept : s.lastseq ≤ s'.lastseq := by rw [hlast, h.lastseq]
    have hadj : (s.sendWaiting sn).1.lastseqAdj = max l.line next' := by
      unfold Seq.lastseqAdj
      rw [hwait.lastseq, h.lastseq, hpending'.requested]
    have hprevious : sub32 sn 1 = sn - 1 := sub32_eq (by omega) (by omega)
    -- no gap opens, the request list stays
    have hsame : ¬ l.Opens sn → s'.requestsSent = (s.sendWaiting sn).1.requestsSent →
        s'.requestsWaiting = (s.sendWaiting sn).1.requestsWaiting →
        (l.note (.business sn)).Tracks s' := by
      intro hnone hsent hwaiting
      simp only [Log.note, if_neg hnone, hreach]
      exact h.receive hpending' hlast hseen hsent hwaiting
    cases hgap with
    | hasprev hprev =>
        rw [hwait.seen, h.seen, hprevious] at hprev
        refine ⟨hsame (fun hopens => hopens.2 hprev) hsent hwaiting, hkept, ?_⟩
        rwa [List.append_nil]
    | @inside p hprev hinside hbelow =>
        rw [hadj, add32_eq (by omega)] at hinside
        refine ⟨hsame (fun hopens => ?_) hsent hwaiting, hkept, ?_⟩
        · have hbeyond := hopens.1
          omega
        · refine List.forall_mem_append.mpr ⟨hnew, List.forall_mem_singleton.mpr ?_⟩
          refine inside_new (by omega) ?_ hbelow
          rw [hwait.seen, h.seen]
          exact fun k hk => List.cons_subset_cons sn h.heard hk
    | fresh hprev hout =>
        rw [hwait.seen, h.seen, hprevious] at hprev
        rw [hadj, add32_eq (by omega)] at hout
        obtain ⟨rfl, hopens⟩ := h.opens hpending' hin hlater (by omega) hprev
        obtain ⟨htracks, hfirst⟩ := h.fresh hpending' (hwait.lastseq.trans h.lastseq) hin hopens
          hlast hseen hsent hwaiting
        exact ⟨htracks, hkept, List.forall_mem_append.mpr ⟨hnew,
          List.forall_mem_singleton.mpr hfirst⟩⟩

/-- An acknowledgement of party details, which is always in line. -/
theorem Log.Tracks.partyDetailsAck (h : l.Tracks s) (hin : l.InPlace (.partyDetailsAck sn))
    (hs : Seq.checkSeq { s with lastseq := sn } sn true = some (s', o)) :
    (l.note (.partyDetailsAck sn)).Tracks s' ∧ s.lastseq ≤ s'.lastseq ∧
      ∀ r ∈ o, r.New (sn :: l.received) := by
  obtain ⟨hsn, hline, hparts⟩ := hin
  obtain ⟨next, hpending⟩ := h.pending
  have hjumped : Pending l l.received { s with lastseq := sn } next :=
    hpending.congr rfl rfl rfl rfl
  obtain ⟨next', hpending', hnew⟩ := hjumped.sendWaiting hsn (by have := h.room; omega) hparts
  obtain ⟨hseen, ⟨-, hlast, rfl, hsent, hwaiting⟩ | ⟨hlater, -⟩⟩ := checkSeq_sent hs
  · refine ⟨h.receive hpending' hlast hseen hsent hwaiting, ?_, hnew⟩
    rw [hlast, h.lastseq]
    exact hline
  · rw [add32_eq hsn] at hlater
    omega

/-- A heartbeat asks for nothing. -/
theorem Log.Tracks.sequence (h : l.Tracks s) {nextSeqNo : ℕ}
    (hin : l.InPlace (.sequence nextSeqNo))
    (hs : s.checkSeq (sub32 nextSeqNo 1) false = some (s', o)) :
    (l.note (.sequence nextSeqNo)).Tracks s' ∧ s.lastseq ≤ s'.lastseq ∧ o = [] := by
  obtain ⟨hpos, hlt, hline⟩ := hin
  rw [checkSeq_heartbeat, Option.some.injEq, Prod.mk.injEq, sub32_eq hlt hpos, h.lastseq,
    add32_eq (show l.line + 1 < 2 ^ 32 by omega)] at hs
  obtain ⟨rfl, rfl⟩ := hs
  have hreach : (if l.line + 1 < nextSeqNo - 1 then l.line else nextSeqNo - 1) =
      l.reach (nextSeqNo - 1) := by
    unfold Log.reach
    split
    · rw [if_neg (by omega)]
    · rw [if_pos (by omega)]
  obtain ⟨next, hpending⟩ := h.pending
  refine ⟨⟨hreach, congrArg _ h.seen, fun k hk => List.mem_cons_of_mem _ (h.heard k hk),
    h.top.imp_right (List.mem_cons_of_mem _), h.room, next,
    hpending.congr rfl rfl rfl rfl⟩, ?_, rfl⟩
  rw [h.lastseq]
  dsimp only
  split
  · exact le_refl _
  · exact hline

theorem note_received (s : Seq) (l : Log) (i : Inbound) :
    noteReceived s i l.received = (l.note i).received := by
  cases i with
  | business sn =>
      dsimp only [Log.note]
      split
      · rfl
      · rfl
  | partyDetailsAck sn => rfl
  | sequence nextSeqNo => rfl

/-- **One message in its place.** -/
theorem Log.Tracks.step (h : l.Tracks sr.1) (hreceived : sr.2 = l.received) (hin : l.InPlace i)
    (hstep : gapStep sr i = some (sr', o)) :
    (l.note i).Tracks sr'.1 ∧ sr'.2 = (l.note i).received ∧ AskedNew sr o sr' := by
  obtain ⟨s, received⟩ := sr
  obtain ⟨s', received'⟩ := sr'
  obtain ⟨hs, rfl⟩ := withGhost_eq_some.mp hstep
  obtain rfl : received = l.received := hreceived
  have hnote := note_received s l i
  cases i with
  | business sn =>
      obtain ⟨htracks, hlastseq, hnew⟩ := h.business hin hs
      exact ⟨htracks, hnote, hlastseq, hnew⟩
  | partyDetailsAck sn =>
      obtain ⟨htracks, hlastseq, hnew⟩ := h.partyDetailsAck hin hs
      exact ⟨htracks, hnote, hlastseq, hnew⟩
  | sequence nextSeqNo =>
      obtain ⟨htracks, hlastseq, rfl⟩ := h.sequence hin hs
      exact ⟨htracks, hnote, hlastseq, fun r hr => nomatch hr⟩

end Tracks

/-! ### Sessions -/

theorem Log.Tracks.start (n0 : ℕ) : Log.Tracks { line := n0 } (sessionStart n0).1 where
  lastseq := rfl
  seen := rfl
  heard := fun k hk => nomatch hk
  top := .inl rfl
  room := by norm_num
  pending := ⟨0, ⟨le_refl 0, rfl, (partsOf_self 0).symm, fun hlt => absurd hlt (lt_irrefl 0),
    fun hlt => absurd hlt (lt_irrefl 0)⟩⟩

/-- No message of a session makes `lastseq` smaller or asks for what was received. -/
def NothingAskedAgain (n0 : ℕ) (es : List Inbound) : Prop :=
  ∀ past i rest sr out sr' o, es = past ++ i :: rest →
    run gapStep (sessionStart n0) past = some (sr, out) → gapStep sr i = some (sr', o) →
    AskedNew sr o sr'

/-- Every message that is handled finds the log kept. -/
theorem Log.Tracks.run {l : Log} {past rest : List Inbound} (h : l.Tracks sr.1)
    (hreceived : sr.2 = l.received) (hin : l.AllInPlace (past ++ i :: rest))
    (hrun : run gapStep sr past = some (sr', out)) :
    ∃ l' : Log, l'.Tracks sr'.1 ∧ sr'.2 = l'.received ∧ l'.InPlace i := by
  induction past generalizing l sr out with
  | nil =>
      cases hrun
      exact ⟨l, h, hreceived, hin.1⟩
  | cons e past ih =>
      obtain ⟨sr₁, o, os, hstep, hrest, -⟩ := run_cons.mp hrun
      obtain ⟨htracks, hreceived', -⟩ := h.step hreceived hin.1 hstep
      exact ih htracks hreceived' hin.2 hrest

/-- **Nothing is asked for again.**  In a session whose messages come in their places `lastseq`
    never decreases and no request asks for a number received before. -/
theorem nothing_asked_again (n0 : ℕ) (es : List Inbound)
    (hin : Log.AllInPlace { line := n0 } es) : NothingAskedAgain n0 es := by
  rintro past i rest sr out sr' o rfl hpast hstep
  obtain ⟨l, htracks, hreceived, hplace⟩ := (Log.Tracks.start n0).run rfl hin hpast
  exact (htracks.step hreceived hplace hstep).2.2

/-- A gap of two parts: the second is asked for when the first has come, a number in between is
    asked for once more on its own, and another gap opens after them. -/
theorem retransmitted_asked_once :
    NothingAskedAgain 0 [.business 1, .business 2600, .business 2, .business 2501,
      .business 2502, .sequence 2601, .business 2603] :=
  nothing_asked_again 0 [.business 1, .business 2600, .business 2, .business 2501,
    .business 2502, .sequence 2601, .business 2603] (by decide +kernel)

/-- A repeated number sets `lastseq` back, and the next gap asks for what is there. -/
theorem repeated_number_asks_again :
    ¬ NothingAskedAgain 0 [.business 1, .business 2, .business 3, .business 1, .business 5] := by
  intro hnew
  have hrun : ((run gapStep (sessionStart 0)
      [.business 1, .business 2, .business 3, .business 1]).bind fun r =>
        (gapStep r.1 (.business 5)).map fun r' =>
          decide (⟨2, 3⟩ ∈ r'.2 ∧ 3 ∈ r'.1.2)) = some true := by
    decide +kernel
  simp only [Option.bind_eq_some_iff, Option.map_eq_some_iff, decide_eq_true_eq] at hrun
  obtain ⟨⟨sr, out⟩, hpast, ⟨sr', o⟩, hstep, hrequest, hreceived⟩ := hrun
  have hasked := hnew _ _ [] sr out sr' o rfl hpast hstep
  -- `⟨2, 3⟩` asks for 2, 3 and 4
  exact hasked.requests ⟨2, 3⟩ hrequest 3 hreceived ⟨by decide, by decide⟩

end KasparHft.ILink
