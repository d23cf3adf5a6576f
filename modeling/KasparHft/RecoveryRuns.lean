import KasparHft.RecoveryProcessor
import Mathlib.Data.List.Chain

/-!
# When the data recovery ends

What the handler keeps is tied to what it did: the packet number, the books and the number of
reports to what it did since its last restart, the last sequence number to all it ever did.
So at its end the recovery is complete where packet 1 did not come again within the run, no
packet completed more books than were missing, and no snapshot of an abandoned run was behind
all those of the last one.
-/

namespace KasparHft.Mdp

open Machine

/-! ### Completeness -/

/-- One packet number follows another: it is the next one, or the same packet again. -/
def Follows (a b : ℕ) : Prop := b = a ∨ b = (a + 1) % 2 ^ 32

/-- The packets from the first of a cycle on, without a gap. -/
def Gapless (ns : List ℕ) : Prop := ns.head? = some 1 ∧ ns.IsChain Follows

/-- The recovery did what it is for: `out` is what was done since the last restart, `lastSeq` what
    the end of the recovery is told. -/
structure Complete (out : List RecoveryOut) (lastSeq : ℕ) : Prop where
  gapless : Gapless (processed out)
  some_snapshot : snapshots out ≠ []
  books : ∀ m ∈ snapshots out, m.totNumReports = (completed out).card
  attained : ∃ m ∈ snapshots out, m.lastMsgSeqNumProcessed = lastSeq
  least : ∀ m ∈ snapshots out, lastSeq ≤ m.lastMsgSeqNumProcessed

/-- What the channel must bring for that. -/
structure Clean (out : List RecoveryOut) : Prop where
  /-- Packet 1 comes at the start of the last run, or again right behind itself. -/
  no_wrap : (processed (sinceRestart out)).IsChain fun a b => b = 1 → a ≤ 1
  /-- The messages of the last run announce one number of reports. -/
  one_number : ∀ m ∈ snapshots (sinceRestart out), ∀ m' ∈ snapshots (sinceRestart out),
    m.totNumReports = m'.totNumReports
  /-- No more books are completed than announced. -/
  no_more : ∀ m ∈ snapshots (sinceRestart out),
    (completed (sinceRestart out)).card ≤ m.totNumReports
  /-- No snapshot of an abandoned run is behind all those of the last run. -/
  not_behind : ∀ m ∈ snapshots out, ∃ m' ∈ snapshots (sinceRestart out),
    m'.lastMsgSeqNumProcessed ≤ m.lastMsgSeqNumProcessed

instance (out : List RecoveryOut) : Decidable (Clean out) :=
  decidable_of_iff (_ ∧ _ ∧ _ ∧ _) ⟨fun ⟨h₁, h₂, h₃, h₄⟩ => ⟨h₁, h₂, h₃, h₄⟩,
    fun ⟨h₁, h₂, h₃, h₄⟩ => ⟨h₁, h₂, h₃, h₄⟩⟩

/-! ### Histories -/

section Histories

variable {out os : List RecoveryOut} {o : RecoveryOut}

theorem sinceRestart_restart (out : List RecoveryOut) :
    sinceRestart (out ++ [.dataRecoveryRestart]) = [] := by
  unfold sinceRestart
  rw [List.rtakeWhile_concat_neg]
  simp

theorem sinceRestart_concat (h : o ≠ .dataRecoveryRestart) (out : List RecoveryOut) :
    sinceRestart (out ++ [o]) = sinceRestart out ++ [o] := by
  unfold sinceRestart
  exact List.rtakeWhile_concat_pos _ _ _ (by simpa using h)

theorem processed_append (out os : List RecoveryOut) :
    processed (out ++ os) = processed out ++ processed os := by
  unfold processed
  exact List.filterMap_append

theorem snapshots_append (out os : List RecoveryOut) :
    snapshots (out ++ os) = snapshots out ++ snapshots os := by
  unfold snapshots
  exact List.filterMap_append

@[simp] theorem processed_snapshot (t : ℕ) (m : Snapshot) :
    processed [.snapshotFullRefreshOrderBook t m] = [] := rfl

@[simp] theorem snapshots_snapshot (t : ℕ) (m : Snapshot) :
    snapshots [.snapshotFullRefreshOrderBook t m] = [m] := rfl

@[simp] theorem processed_processing (n : ℕ) : processed [.processing n] = [n] := rfl

@[simp] theorem snapshots_processing (n : ℕ) : snapshots [.processing n] = [] := rfl

@[simp] theorem snapshots_restart : snapshots [.dataRecoveryRestart] = [] := rfl

theorem completed_snapshot (out : List RecoveryOut) (t : ℕ) (m : Snapshot) :
    completed (out ++ [.snapshotFullRefreshOrderBook t m]) =
      if m.noChunks = m.currentChunk then insert m.securityID (completed out)
      else completed out := by
  unfold completed
  rw [snapshots_append, snapshots_snapshot, List.filter_append]
  split
  next h =>
    have hkept : [m].filter (fun m => m.noChunks = m.currentChunk) = [m] := by simp [h]
    rw [hkept, List.map_append, List.toFinset_append, Finset.union_comm]
    rfl
  next h =>
    have hdropped : [m].filter (fun m => m.noChunks = m.currentChunk) = [] := by simp [h]
    rw [hdropped, List.append_nil]

theorem completed_processing (out : List RecoveryOut) (n : ℕ) :
    completed (out ++ [.processing n]) = completed out := by
  unfold completed
  rw [snapshots_append, snapshots_processing, List.append_nil]

/-- The least `lastMsgSeqNumProcessed`, or the largest number where there is none. -/
def lowest (ms : List Snapshot) : ℕ :=
  (ms.map Snapshot.lastMsgSeqNumProcessed).foldr min uint32Max

theorem lowest_concat (ms : List Snapshot) (m : Snapshot) :
    lowest (ms ++ [m]) = min (lowest ms) m.lastMsgSeqNumProcessed := by
  unfold lowest
  induction ms with
  | nil =>
      have := m.lastMsgSeqNumProcessed_lt
      simp [uint32Max]
      omega
  | cons m' ms ih =>
      rw [List.cons_append, List.map_cons, List.map_cons, List.foldr_cons, List.foldr_cons, ih,
        min_assoc]

theorem lowest_le {ms : List Snapshot} {m : Snapshot} (h : m ∈ ms) :
    lowest ms ≤ m.lastMsgSeqNumProcessed := by
  unfold lowest
  induction ms with
  | nil => cases h
  | cons m' ms ih =>
      rw [List.map_cons, List.foldr_cons]
      rcases List.mem_cons.mp h with rfl | h
      · exact min_le_left _ _
      · exact (min_le_right _ _).trans (ih h)

theorem exists_lowest {ms : List Snapshot} (h : ms ≠ []) :
    ∃ m ∈ ms, m.lastMsgSeqNumProcessed = lowest ms := by
  induction ms with
  | nil => exact absurd rfl h
  | cons m ms ih =>
      have hcons : lowest (m :: ms) = min m.lastMsgSeqNumProcessed (lowest ms) := rfl
      by_cases hms : ms = []
      · have hlt := m.lastMsgSeqNumProcessed_lt
        have hnil : lowest [] = uint32Max := rfl
        refine ⟨m, List.mem_cons_self, ?_⟩
        rw [hcons, hms, hnil, min_eq_left]
        unfold uint32Max
        omega
      · obtain ⟨m', hm', heq⟩ := ih hms
        rcases le_total m.lastMsgSeqNumProcessed (lowest ms) with hle | hle
        · exact ⟨m, List.mem_cons_self, by rw [hcons, min_eq_left hle]⟩
        · exact ⟨m', List.mem_cons_of_mem _ hm', by rw [hcons, min_eq_right hle, heq]⟩

end Histories

/-! ### What the handler keeps -/

/-- A packet that is taken behind another: the next one, the same one, or the first. -/
def Accepts (a b : ℕ) : Prop := a < 2 ^ 32 ∧ (Follows a b ∨ b = 1)

/-- The variables, by what was done. -/
structure Tracks (out : List RecoveryOut) (r : Recovery) : Prop where
  curr_lt : r.currSeqNum < 2 ^ 32
  idle : r.foundFirstPacket = false → sinceRestart out = []
  first : ∀ n ∈ (processed (sinceRestart out)).head?, n = 1
  chain : (processed (sinceRestart out)).IsChain Accepts
  curr : r.foundFirstPacket = true →
    (processed (sinceRestart out)).getLast? = some r.currSeqNum
  books : r.recoveredBooks = completed (sinceRestart out)
  agree : ∀ m ∈ snapshots (sinceRestart out),
    m.totNumReports = r.numreports ∨ m.totNumReports = uint32Max
  known : r.numreports = uint32Max ∨
    ∃ m ∈ snapshots (sinceRestart out), m.totNumReports = r.numreports
  lastSeq : r.lastSeqNum = lowest (snapshots out)

section Tracking

variable {out o : List RecoveryOut} {r r' : Recovery} {p : Packet SnapshotPacket}

theorem tracks_new : Tracks [] {} where
  curr_lt := by decide
  idle := fun _ => rfl
  first := fun n hn => by cases hn
  chain := .nil
  curr := fun h => by cases h
  books := rfl
  agree := fun m hm => by cases hm
  known := .inl rfl
  lastSeq := rfl

theorem Tracks.restart (h : Tracks out r) : Tracks (out ++ [.dataRecoveryRestart]) r.restart := by
  have hsince := sinceRestart_restart out
  constructor
  · exact Nat.two_pow_pos 32
  · exact fun _ => hsince
  · rw [hsince]
    exact fun n hn => by cases hn
  · rw [hsince]
    exact .nil
  · exact fun hfound => by cases hfound
  · rw [hsince]
    rfl
  · rw [hsince]
    exact fun m hm => by cases hm
  · exact .inl rfl
  · rw [snapshots_append, snapshots_restart, List.append_nil]
    exact h.lastSeq

theorem Tracks.snapshot {m : Snapshot} (h : Tracks out r) (hfound : r.foundFirstPacket = true)
    (hreports : ¬ (r.numreports ≠ uint32Max ∧ r.numreports ≠ m.totNumReports)) (t : ℕ) :
    Tracks (out ++ [.snapshotFullRefreshOrderBook t m]) (r.snapshot m) := by
  have hsince : sinceRestart (out ++ [.snapshotFullRefreshOrderBook t m]) =
      sinceRestart out ++ [.snapshotFullRefreshOrderBook t m] :=
    sinceRestart_concat (fun heq => by cases heq) out
  have hprocessed : processed (sinceRestart (out ++ [.snapshotFullRefreshOrderBook t m])) =
      processed (sinceRestart out) := by
    rw [hsince, processed_append, processed_snapshot, List.append_nil]
  have hnumber : (r.snapshot m).numreports = m.totNumReports := by
    unfold Recovery.snapshot
    dsimp only
    split
    · rfl
    next hknown =>
      by_contra hne
      exact hreports ⟨hknown, hne⟩
  constructor
  · exact h.curr_lt
  · intro hnot
    have hnot : r.foundFirstPacket = false := hnot
    rw [hfound] at hnot
    cases hnot
  · rw [hprocessed]
    exact h.first
  · rw [hprocessed]
    exact h.chain
  · rw [hprocessed]
    exact fun _ => h.curr hfound
  · rw [hsince, completed_snapshot, ← h.books]
    rfl
  · intro m' hm'
    rw [hsince, snapshots_append, snapshots_snapshot] at hm'
    rw [hnumber]
    rcases List.mem_append.mp hm' with hm' | hm'
    · rcases h.agree m' hm' with heq | heq
      · by_cases hknown : r.numreports = uint32Max
        · exact .inr (heq.trans hknown)
        · left
          rw [heq]
          by_contra hne
          exact hreports ⟨hknown, hne⟩
      · exact .inr heq
    · rw [List.mem_singleton.mp hm']
      exact .inl rfl
  · right
    refine ⟨m, ?_, hnumber.symm⟩
    rw [hsince, snapshots_append, snapshots_snapshot]
    exact List.mem_append_right _ List.mem_cons_self
  · rw [snapshots_append, snapshots_snapshot, lowest_concat, ← h.lastSeq]
    rfl

/-- The walk over a packet. -/
theorem walk_tracks {msgs : List SnapshotMsg} {t : ℕ} (h : Tracks out r)
    (hfound : r.foundFirstPacket = true) (hw : r.walk t msgs = some (r', o)) :
    Tracks (out ++ o) r' := by
  induction msgs generalizing out r o with
  | nil =>
      cases hw
      rw [List.append_nil]
      exact h
  | cons msg msgs ih =>
      cases msg with
      | snapshotFullRefresh52 => exact ih h hfound hw
      | adminHeartbeat12 => exact ih h hfound hw
      | unknown => cases hw
      | snapshotFullRefreshOrderBook53 m =>
          unfold Recovery.walk at hw
          split at hw
          · cases hw
            exact h.restart
          next hreports =>
            obtain ⟨⟨r', os⟩, hrest, heq⟩ := Option.map_eq_some_iff.mp hw
            cases heq
            have htail := ih (h.snapshot hfound hreports t) hfound hrest
            rwa [List.append_assoc] at htail

/-- A packet that is processed. -/
theorem Tracks.processing (h : Tracks out r) (hfirst : p.seqnum = 1 ∨ r.foundFirstPacket = true)
    (hgap : ¬ (1 < (p.seqnum + 2 ^ 32 - r.currSeqNum) % 2 ^ 32 ∧ p.seqnum ≠ 1)) :
    Tracks (out ++ [.processing p.seqnum])
      { r with foundFirstPacket := true, currSeqNum := p.seqnum } := by
  have hsince : sinceRestart (out ++ [.processing p.seqnum]) =
      sinceRestart out ++ [.processing p.seqnum] :=
    sinceRestart_concat (fun heq => by cases heq) out
  have hprocessed : processed (sinceRestart (out ++ [.processing p.seqnum])) =
      processed (sinceRestart out) ++ [p.seqnum] := by
    rw [hsince, processed_append, processed_processing]
  have hsnapshots : snapshots (sinceRestart (out ++ [.processing p.seqnum])) =
      snapshots (sinceRestart out) := by
    rw [hsince, snapshots_append, snapshots_processing, List.append_nil]
  constructor
  · exact p.seqnum_lt
  · exact fun hnot => by cases hnot
  · rw [hprocessed]
    intro n hn
    rcases hpast : processed (sinceRestart out) with _ | ⟨n', ns⟩
    · rw [hpast] at hn
      obtain rfl : p.seqnum = n := Option.some.inj hn
      rcases hfirst with hone | hfound
      · exact hone
      · have hcurr := h.curr hfound
        rw [hpast] at hcurr
        cases hcurr
    · have hhead := h.first
      rw [hpast] at hn hhead
      exact hhead n hn
  · rw [hprocessed, List.isChain_append]
    refine ⟨h.chain, .singleton _, fun a ha b hb => ?_⟩
    obtain rfl : p.seqnum = b := Option.some.inj hb
    have hfound : r.foundFirstPacket = true := by
      by_contra hnot
      rw [h.idle (by simpa using hnot)] at ha
      cases ha
    obtain rfl : r.currSeqNum = a := Option.some.inj ((h.curr hfound).symm.trans ha)
    have hcurr := h.curr_lt
    have hseq := p.seqnum_lt
    refine ⟨hcurr, ?_⟩
    unfold Follows
    omega
  · rw [hprocessed]
    exact fun _ => List.getLast?_concat
  · rw [hsince, completed_processing]
    exact h.books
  · rw [hsnapshots]
    exact h.agree
  · rw [hsnapshots]
    exact h.known
  · rw [snapshots_append, snapshots_processing, List.append_nil]
    exact h.lastSeq

/-- Where the handler is after what it did. -/
def At (out : List RecoveryOut) : RecoveryPhase → Prop
  | .reading r => Tracks out r
  | .done => ∃ past r, out = past ++ [.endDataRecovery r.lastSeqNum] ∧ Tracks past r ∧
      r.numreports ≤ r.recoveredBooks.card

/-- **One packet.** -/
theorem packet_at {ph : RecoveryPhase} (h : Tracks out r) (hp : r.packet p = some (ph, o)) :
    At (out ++ o) ph := by
  have hfound : (if p.seqnum = 1 then { r with foundFirstPacket := true } else r) =
      { r with foundFirstPacket := r.foundFirstPacket || decide (p.seqnum = 1) } := by
    by_cases hone : p.seqnum = 1
    · rw [if_pos hone, decide_eq_true hone, Bool.or_true]
    · rw [if_neg hone, decide_eq_false hone, Bool.or_false]
  unfold Recovery.packet at hp
  rw [hfound] at hp
  dsimp only at hp
  split at hp
  next hnot =>
    -- packet 1 is still waited for
    cases hp
    obtain ⟨hstill, -⟩ := Bool.or_eq_false_iff.mp hnot
    rw [List.append_nil, hnot, ← hstill]
    exact h
  next hstarted =>
    have htrue : (r.foundFirstPacket || decide (p.seqnum = 1)) = true :=
      (Bool.not_eq_false _).mp hstarted
    have hfirst : p.seqnum = 1 ∨ r.foundFirstPacket = true := by
      rcases Bool.or_eq_true_iff.mp htrue with hbefore | hone
      · exact .inr hbefore
      · exact .inl (of_decide_eq_true hone)
    rw [htrue] at hp
    split at hp
    next hgap =>
      cases hp
      exact h.restart
    next hgap =>
      obtain ⟨⟨r', os⟩, hwalk, heq⟩ := Option.map_eq_some_iff.mp hp
      have hafter := walk_tracks (h.processing hfirst hgap) rfl hwalk
      rw [List.append_assoc, List.singleton_append] at hafter
      dsimp only at heq
      split at heq
      · cases heq
        exact hafter
      next hall =>
        cases heq
        exact ⟨_, r', by rw [← List.append_assoc], hafter, Nat.not_lt.mp hall⟩

theorem run_at {ps : List (Packet SnapshotPacket)} {ph : RecoveryPhase}
    (hrun : run RecoveryPhase.packet (.reading {}) ps = some (ph, out)) : At out ph := by
  have hnew : At [] (.reading {}) := tracks_new
  refine run_invariant (I := fun _ out ph => At out ph) hnew ?_ hrun
  intro _ out ph p ph' o hat hp
  cases ph with
  | reading r => exact packet_at hat hp
  | done =>
      cases hp
      rw [List.append_nil]
      exact hat

end Tracking

/-! ### The end of the recovery -/

section Ends

variable {out : List RecoveryOut} {r : Recovery}

theorem snapshots_sinceRestart {m : Snapshot} (h : m ∈ snapshots (sinceRestart out)) :
    m ∈ snapshots out := by
  unfold snapshots at h ⊢
  obtain ⟨o, ho, hm⟩ := List.mem_filterMap.mp h
  exact List.mem_filterMap.mpr ⟨o, List.rtakeWhile_suffix _ _ |>.subset ho, hm⟩

theorem chain_follows_iff {ns : List ℕ} (h : ns.IsChain Accepts) :
    ns.IsChain Follows ↔ ns.IsChain fun a b => b = 1 → a ≤ 1 := by
  rw [List.isChain_iff_forall_rel_of_append_cons_cons] at h ⊢
  rw [List.isChain_iff_forall_rel_of_append_cons_cons]
  have hpoint : ∀ a b, Accepts a b → (Follows a b ↔ (b = 1 → a ≤ 1)) := by
    intro a b hab
    unfold Accepts Follows at hab
    unfold Follows
    omega
  constructor
  · intro hchain a b l₁ l₂ heq
    exact (hpoint a b (h heq)).mp (hchain heq)
  · intro hchain a b l₁ l₂ heq
    exact (hpoint a b (h heq)).mpr (hchain heq)

theorem Tracks.snapshots_ne_nil (h : Tracks out r)
    (hall : r.numreports ≤ r.recoveredBooks.card) : snapshots (sinceRestart out) ≠ [] := by
  intro hnil
  rcases h.known with hmax | ⟨m, hm, -⟩
  · have hnone : r.recoveredBooks = ∅ := by
      rw [h.books]
      unfold completed
      rw [hnil]
      rfl
    rw [hmax, hnone, Finset.card_empty] at hall
    exact absurd hall (by decide)
  · rw [hnil] at hm
    cases hm

/-- **At the end** the recovery is complete exactly when the channel was clean. -/
theorem Tracks.complete_iff (h : Tracks out r) (hall : r.numreports ≤ r.recoveredBooks.card) :
    Complete (sinceRestart out) r.lastSeqNum ↔ Clean out := by
  have hsome := h.snapshots_ne_nil hall
  have hfound : r.foundFirstPacket = true := by
    by_contra hnot
    rw [h.idle (by simpa using hnot)] at hsome
    exact hsome rfl
  constructor
  · intro hc
    obtain ⟨m', hm', hlast⟩ := hc.attained
    refine ⟨(chain_follows_iff h.chain).mp hc.gapless.2, ?_, ?_, ?_⟩
    · intro m hm m' hm'
      rw [hc.books m hm, hc.books m' hm']
    · exact fun m hm => (hc.books m hm).ge
    · intro m hm
      refine ⟨m', hm', ?_⟩
      rw [hlast, h.lastSeq]
      exact lowest_le hm
  · intro hc
    have hhead : (processed (sinceRestart out)).head? = some 1 := by
      have hlast := h.curr hfound
      have hfirst := h.first
      rcases hns : processed (sinceRestart out) with _ | ⟨n, ns⟩
      · rw [hns] at hlast
        cases hlast
      · rw [hns] at hfirst
        rw [List.head?_cons, hfirst n rfl]
    refine ⟨⟨hhead, (chain_follows_iff h.chain).mpr hc.no_wrap⟩, hsome, ?_, ?_, ?_⟩
    · intro m hm
      have hle := hc.no_more m hm
      rw [h.books] at hall
      have hnumber : r.numreports = m.totNumReports := by
        rcases h.known with hmax | ⟨m', hm', heq⟩
        · rcases h.agree m hm with heq | heq
          · exact heq.symm
          · rw [hmax, heq]
        · rw [← heq]
          exact hc.one_number m' hm' m hm
      omega
    · have hany : snapshots out ≠ [] := by
        obtain ⟨m, hm⟩ := List.exists_mem_of_ne_nil _ hsome
        exact List.ne_nil_of_mem (snapshots_sinceRestart hm)
      obtain ⟨m, hm, hlow⟩ := exists_lowest hany
      obtain ⟨m', hm', hle⟩ := hc.not_behind m hm
      have hge := lowest_le (snapshots_sinceRestart hm')
      exact ⟨m', hm', by rw [h.lastSeq]; omega⟩
    · intro m hm
      rw [h.lastSeq]
      exact lowest_le (snapshots_sinceRestart hm)

/-- **Snapshot completeness.**  When the data recovery ends, the packets processed since its last
    restart are gapless from packet 1, as many books as announced had their last chunk among
    them, and the end is told the least last sequence number of their snapshots, exactly when
    packet 1 did not come again within the run, the run announced one number of reports and
    completed no more books, and no abandoned snapshot was behind all those of the run. -/
theorem recovery_complete_iff {ps : List (Packet SnapshotPacket)}
    (hrun : run RecoveryPhase.packet (.reading {}) ps = some (.done, out)) :
    ∃ past lastSeq, out = past ++ [.endDataRecovery lastSeq] ∧
      (Complete (sinceRestart past) lastSeq ↔ Clean past) := by
  obtain ⟨past, r, hout, htracks, hall⟩ := run_at hrun
  exact ⟨past, r.lastSeqNum, hout, htracks.complete_iff hall⟩

/-- The book of a security in one chunk, one of two. -/
def bookOf (securityID : ℤ) (lastSeq : Fin (2 ^ 32)) : Snapshot where
  lastMsgSeqNumProcessed := lastSeq
  lastMsgSeqNumProcessed_lt := fin_lt_2_32 lastSeq
  totNumReports := 2
  securityID := securityID
  noChunks := 1
  currentChunk := 1
  transactTime := 0
  noMDEntries := []

/-- A packet with one book. -/
def bookPacket (sn : Fin (2 ^ 32)) (m : Snapshot) : Packet SnapshotPacket where
  seqnum := sn
  seqnum_lt := fin_lt_2_32 sn
  message := ⟨0, [.snapshotFullRefreshOrderBook53 m]⟩

/-- A cycle without loss. -/
theorem recovery_complete_iff_cycle :
    ∃ past lastSeq, run RecoveryPhase.packet (.reading {})
        [bookPacket 1 (bookOf 7 205), bookPacket 2 (bookOf 8 204)] =
          some (.done, past ++ [.endDataRecovery lastSeq]) ∧
      Complete (sinceRestart past) lastSeq := by
  have hrun : run RecoveryPhase.packet (.reading {})
      [bookPacket 1 (bookOf 7 205), bookPacket 2 (bookOf 8 204)] =
        some (.done, [.processing 1, .snapshotFullRefreshOrderBook 0 (bookOf 7 205),
          .processing 2, .snapshotFullRefreshOrderBook 0 (bookOf 8 204),
          .endDataRecovery 204]) := by decide +kernel
  obtain ⟨past, lastSeq, hout, hiff⟩ := recovery_complete_iff hrun
  refine ⟨past, lastSeq, by rw [hrun, hout], hiff.mpr ?_⟩
  have hpast := congrArg List.dropLast hout
  rw [List.dropLast_concat] at hpast
  rw [← hpast]
  decide +kernel

/-- Packet 2 of the first cycle is lost: the recovery of the second ends with the number of a
    snapshot of the first. -/
theorem restart_keeps_last_seq :
    ∃ past, run RecoveryPhase.packet (.reading {})
        [bookPacket 1 (bookOf 7 100), bookPacket 3 (bookOf 9 100), bookPacket 1 (bookOf 7 205),
          bookPacket 2 (bookOf 8 204)] = some (.done, past ++ [.endDataRecovery 100]) ∧
      ¬ Complete (sinceRestart past) 100 := by
  refine ⟨[.processing 1, .snapshotFullRefreshOrderBook 0 (bookOf 7 100), .dataRecoveryRestart,
    .processing 1, .snapshotFullRefreshOrderBook 0 (bookOf 7 205), .processing 2,
    .snapshotFullRefreshOrderBook 0 (bookOf 8 204)], by decide +kernel, fun h => ?_⟩
  exact absurd h.attained (by decide +kernel)

end Ends

end KasparHft.Mdp
