import KasparHft.FeedSequencing

/-!
# The backlog of a recovery

While a recovery runs, packets are queued.  The end of a recovery moves the number and calls
`processq`, but clears its own flag only afterwards: the call finds the flag and returns, so
nothing of the backlog is decoded then.  The next packet that arrives drains it.
-/

namespace KasparHft.Mdp

open Machine

variable {δ Buf : Type} {cfg : Cfg} {dec : Decoder δ Buf} {s s' : State δ Buf} {o : List Out}
  {m : Packet Buf} {q ps : List (Packet Buf)} {n k : ℕ}

/-! ### Backlogs -/

/-- The packet `k` is queued, and so is every one from `n` up to it. -/
def Contiguous (n : ℕ) (q : List (Packet Buf)) (k : ℕ) : Prop :=
  n < k ∧ ∀ j, n < j → j ≤ k → ∃ p ∈ q, p.seqnum = j

/-- The queue is ordered by number, and no number is there twice. -/
def Sorted (q : List (Packet Buf)) : Prop := q.Pairwise fun p p' => p.seqnum < p'.seqnum

theorem Contiguous.next (h : Contiguous n q k) : ∃ p ∈ q, p.seqnum = n + 1 :=
  h.2 (n + 1) (by omega) h.1

theorem contiguous_next {p : Packet Buf} (hp : p ∈ q) (hnext : p.seqnum = n + 1) :
    Contiguous n q (n + 1) := by
  refine ⟨by omega, fun j hj hjk => ⟨p, hp, ?_⟩⟩
  omega

/-- A packet at or below the number does not matter. -/
theorem Contiguous.drop {p : Packet Buf} (h : Contiguous n (p :: ps) k) (hp : p.seqnum ≤ n) :
    Contiguous n ps k := by
  refine ⟨h.1, fun j hj hjk => ?_⟩
  obtain ⟨p', hp', hseq⟩ := h.2 j hj hjk
  rcases List.mem_cons.mp hp' with rfl | hp'
  · omega
  · exact ⟨p', hp', hseq⟩

/-- Past the first packet of the queue the rest is contiguous with it. -/
theorem Contiguous.past {p : Packet Buf} (h : Contiguous n (p :: ps) k) (hp : n < p.seqnum)
    (hk : p.seqnum < k) : Contiguous p.seqnum ps k := by
  refine ⟨hk, fun j hj hjk => ?_⟩
  obtain ⟨p', hp', hseq⟩ := h.2 j (by omega) hjk
  rcases List.mem_cons.mp hp' with rfl | hp'
  · omega
  · exact ⟨p', hp', hseq⟩

/-! ### The queue stays ordered -/

theorem mem_emplace {p : Packet Buf} (h : p ∈ emplace m q) : p = m ∨ p ∈ q := by
  induction q with
  | nil => exact .inl (List.mem_singleton.mp h)
  | cons p' q ih =>
      unfold emplace at h
      split at h
      · exact List.mem_cons.mp h
      · split at h
        · exact .inr h
        · rcases List.mem_cons.mp h with rfl | h
          · exact .inr List.mem_cons_self
          · exact (ih h).imp_right (List.mem_cons_of_mem p')

theorem emplace_sorted (h : Sorted q) : Sorted (emplace m q) := by
  induction q with
  | nil => exact List.pairwise_singleton _ _
  | cons p q ih =>
      obtain ⟨hp, hq⟩ := List.pairwise_cons.mp h
      unfold emplace
      split
      next hlt =>
        refine List.pairwise_cons.mpr ⟨fun p' hp' => ?_, h⟩
        rcases List.mem_cons.mp hp' with rfl | hp'
        · exact hlt
        · exact Nat.lt_trans hlt (hp p' hp')
      next hge =>
        split
        · exact h
        next hne =>
          refine List.pairwise_cons.mpr ⟨fun p' hp' => ?_, ih hq⟩
          rcases mem_emplace hp' with rfl | hp'
          · omega
          · exact hp p' hp'

theorem doDataRecovery_msgQ (h : s.doDataRecovery cfg = some (s', o)) : s'.msgQ = s.msgQ := by
  unfold State.doDataRecovery at h
  split at h
  · cases h
    rfl
  · cases h

theorem doInstrRecovery_msgQ (cfg : Cfg) (s : State δ Buf) :
    (s.doInstrRecovery cfg).1.msgQ = s.msgQ := by
  unfold State.doInstrRecovery
  split <;> rfl

/-- The drain leaves an end of the queue. -/
theorem drain_suffix (h : s.drain cfg dec ps = some (s', o)) : s'.msgQ <:+ ps := by
  induction ps generalizing s o with
  | nil =>
      cases h
      exact List.suffix_refl _
  | cons p ps ih =>
      cases drain_cons h with
      | old hold hrest => exact (ih hrest).trans (List.suffix_cons p ps)
      | fails hnew hrc hrec => exact doDataRecovery_msgQ hrec ▸ List.suffix_refl (p :: ps)
      | decodes hnew hnext hrest => exact (ih hrest).trans (List.suffix_cons p ps)
      | waits hgap => exact List.suffix_refl _
      | recovers hgap hrec => exact doDataRecovery_msgQ hrec ▸ List.suffix_refl (p :: ps)
      | resets hgap hno => exact List.suffix_refl _

theorem processq_sorted (hs : Sorted s.msgQ) (h : s.processq cfg dec = some (s', o)) :
    Sorted s'.msgQ := by
  unfold State.processq at h
  split at h
  · cases h
    exact hs
  · exact hs.sublist (drain_suffix h).sublist

/-- The number moves first, then the queue is processed, and the flag is cleared last. -/
theorem enddatarecovery_eq (cfg : Cfg) (dec : Decoder δ Buf) (s : State δ Buf)
    (m : EndDataRecovery) : s.enddatarecoveryHandler cfg dec m =
      (State.processq cfg dec { s with qseqNum := max s.qseqNum m.lastSeq }).map fun t =>
        ({ t.1 with inDataRecovery := false },
          (if s.qseqNum < m.lastSeq then [.recovered s.qseqNum m.lastSeq] else []) ++ t.2) := by
  unfold State.enddatarecoveryHandler
  by_cases hlt : s.qseqNum < m.lastSeq
  · rw [if_pos hlt, if_pos hlt, Nat.max_eq_right (Nat.le_of_lt hlt)]
  · rw [if_neg hlt, if_neg hlt, Nat.max_eq_left (Nat.not_lt.mp hlt)]

theorem step_sorted {e : Event Buf} (hs : Sorted s.msgQ) (h : step cfg dec s e = some (s', o)) :
    Sorted s'.msgQ := by
  cases e with
  | start =>
      have hinstr := doInstrRecovery_msgQ cfg s
      change s.startHandler cfg = _ at h
      unfold State.startHandler at h
      simp only [instrRecoveryonstart, if_true] at h
      split at h
      · obtain ⟨⟨t, ot⟩, hdata, heq⟩ := Option.map_eq_some_iff.mp h
        cases heq
        have hmsgQ := (doDataRecovery_msgQ hdata).trans hinstr
        exact hmsgQ ▸ hs
      · cases h
        exact hinstr ▸ hs
  | processQ m =>
      change s.processqHandler cfg dec m = _ at h
      unfold State.processqHandler at h
      split at h
      · cases h
        exact hs
      · exact processq_sorted (emplace_sorted hs) h
  | endDataRecovery m =>
      obtain ⟨⟨t, ot⟩, hproc, heq⟩ :=
        Option.map_eq_some_iff.mp ((enddatarecovery_eq cfg dec s m).symm.trans h)
      cases heq
      have hmoved : Sorted (State.msgQ { s with qseqNum := max s.qseqNum m.lastSeq }) := hs
      have hafter : Sorted t.msgQ := processq_sorted hmoved hproc
      exact hafter
  | endInstrRecovery =>
      obtain ⟨⟨t, ot⟩, hproc, heq⟩ := Option.map_eq_some_iff.mp h
      cases heq
      have hafter : Sorted t.msgQ := processq_sorted hs hproc
      exact hafter
  | startQ =>
      cases h
      exact hs
  | stopQ =>
      cases h
      exact hs

theorem run_sorted {d : δ} {es : List (Event Buf)} {out : List Out}
    (hrun : run (step cfg dec) (State.new d) es = some (s, out)) : Sorted s.msgQ := by
  have hnew : Sorted (State.new d : State δ Buf).msgQ := List.Pairwise.nil
  exact run_invariant (I := fun _ _ s => Sorted (State.msgQ s)) hnew
    (fun _ _ _ _ _ _ hs h => step_sorted hs h) hrun

/-! ### Draining -/

/-- A drain decodes what is contiguous, where the decoder takes every packet. -/
theorem drain_contiguous (htakes : ∀ d b, (dec.decode d b).2.rc = true) (hs : Sorted ps)
    (h : s.drain cfg dec ps = some (s', o)) (hk : Contiguous s.qseqNum ps k) : .decoded k ∈ o := by
  induction ps generalizing s o with
  | nil =>
      obtain ⟨p, hp, -⟩ := hk.next
      cases hp
  | cons p ps ih =>
      obtain ⟨hp, hrest⟩ := List.pairwise_cons.mp hs
      have hgap : ¬ s.qseqNum + 1 < p.seqnum := by
        -- the next packet is in the queue, and the queue is ordered
        intro hgap
        obtain ⟨p', hp', hseq⟩ := hk.next
        rcases List.mem_cons.mp hp' with rfl | hp'
        · omega
        · have := hp p' hp'
          omega
      cases drain_cons h with
      | old hold htail => exact ih hrest htail (hk.drop hold)
      | fails hnew hrc hrec =>
          rw [htakes] at hrc
          cases hrc
      | decodes hnew hnext htail =>
          by_cases heq : k = p.seqnum
          · rw [heq]
            exact List.mem_cons_self
          · obtain ⟨p', hp', hseq⟩ := hk.2 k hk.1 (Nat.le_refl k)
            have hlt : p.seqnum < k := by
              rcases List.mem_cons.mp hp' with rfl | hp'
              · exact absurd hseq.symm heq
              · exact hseq ▸ hp p' hp'
            exact List.mem_cons_of_mem _ (ih hrest htail (hk.past hnew hlt))
      | waits hwide => exact absurd hwide hgap
      | recovers hwide hrec => exact absurd hwide hgap
      | resets hwide hno => exact absurd hwide hgap

/-- **The next packet drains the backlog**: in every state reached with no recovery running, it
    brings all that is contiguous with it and with the number. -/
theorem next_packet_drains {d : δ} {es : List (Event Buf)} {out : List Out}
    (hrun : run (step cfg dec) (State.new d) es = some (s, out))
    (htakes : ∀ d b, (dec.decode d b).2.rc = true) (hdata : s.inDataRecovery = false)
    (hinstr : s.inInstrRecovery = false) (hstop : s.stopq = false) (hnew : s.qseqNum < m.seqnum)
    (h : step cfg dec s (.processQ m) = some (s', o))
    (hk : Contiguous s.qseqNum (emplace m s.msgQ) k) : .decoded k ∈ o := by
  change s.processqHandler cfg dec m = _ at h
  unfold State.processqHandler at h
  rw [if_neg (by rw [hstop]; simpa using hnew)] at h
  unfold State.processq at h
  dsimp only at h
  rw [hdata, hinstr, Bool.or_false, if_neg Bool.false_ne_true] at h
  exact drain_contiguous htakes (emplace_sorted (run_sorted hrun)) h hk

/-! ### The last end of a recovery -/

/-- The message ends the only recovery that runs. -/
def EndsLast (s : State δ Buf) : Event Buf → Prop
  | .endDataRecovery _ => s.inDataRecovery = true ∧ s.inInstrRecovery = false
  | .endInstrRecovery => s.inInstrRecovery = true ∧ s.inDataRecovery = false
  | _ => False

/-- The number that is recovered then. -/
def recoveredNum (s : State δ Buf) : Event Buf → ℕ
  | .endDataRecovery m => max s.qseqNum m.lastSeq
  | _ => s.qseqNum

/-- While a recovery runs the queue is not processed. -/
theorem processq_recovering (h : s.inDataRecovery = true ∨ s.inInstrRecovery = true) :
    s.processq cfg dec = some (s, []) :=
  if_pos (Bool.or_eq_true_iff.mpr h)

/-- **The end of the last recovery** clears its flag, moves the number and decodes nothing. -/
theorem endsLast_step (cfg : Cfg) (dec : Decoder δ Buf) {e : Event Buf} (he : EndsLast s e) :
    ∃ o, step cfg dec s e = some ({ s with
        inDataRecovery := false
        inInstrRecovery := false
        qseqNum := recoveredNum s e }, o) ∧ ∀ k, .decoded k ∉ o := by
  cases e with
  | endDataRecovery m =>
      obtain ⟨hdata, hinstr⟩ := he
      have hproc : State.processq cfg dec { s with qseqNum := max s.qseqNum m.lastSeq } =
          some ({ s with qseqNum := max s.qseqNum m.lastSeq }, []) :=
        processq_recovering (.inl hdata)
      refine ⟨if s.qseqNum < m.lastSeq then [.recovered s.qseqNum m.lastSeq] else [], ?_, ?_⟩
      · refine (enddatarecovery_eq cfg dec s m).trans ?_
        rw [hproc, Option.map_some, List.append_nil, hinstr]
        rfl
      · intro k hk
        split at hk
        · cases List.mem_singleton.mp hk
        · cases hk
  | endInstrRecovery =>
      obtain ⟨hinstr, hdata⟩ := he
      have hproc : s.processq cfg dec = some (s, []) := processq_recovering (.inr hinstr)
      refine ⟨[], ?_, fun k hk => by cases hk⟩
      change (s.processq cfg dec).map _ = _
      rw [hproc, Option.map_some]
      dsimp only
      rw [hdata]
      rfl
  | _ => exact he.elim

/-- **The backlog.**  When the last recovery that runs ends, all that is queued contiguously
    behind the recovered number is decoded at once exactly when the packet behind it is not in
    the queue. -/
theorem backlog_drained_iff (cfg : Cfg) (dec : Decoder δ Buf) {e : Event Buf}
    (he : EndsLast s e) :
    ∃ s' o, step cfg dec s e = some (s', o) ∧
      ((∀ k, Contiguous (recoveredNum s e) s.msgQ k → .decoded k ∈ o) ↔
        ∀ p ∈ s.msgQ, p.seqnum ≠ recoveredNum s e + 1) := by
  obtain ⟨o, hstep, hnone⟩ := endsLast_step cfg dec he
  refine ⟨_, o, hstep, ?_⟩
  constructor
  · intro hall p hp hnext
    exact hnone _ (hall _ (contiguous_next hp hnext))
  · intro hno k hk
    obtain ⟨p, hp, hnext⟩ := hk.next
    exact absurd hnext (hno p hp)

/-- The end of a data recovery at a number. -/
def endAt (sn : Fin (2 ^ 32)) : Event Unit :=
  .endDataRecovery ⟨sn, fin_lt_2_32 sn⟩

/-- A data recovery runs behind packet 4, and one packet waits. -/
def waiting (sn : Fin (2 ^ 32)) : State Unit Unit where
  decoder := ()
  msgQ := [⟨sn, fin_lt_2_32 sn, ()⟩]
  inDataRecovery := true
  qseqNum := 4

/-- Packet 6 is missing before packet 9. -/
theorem backlog_drained_iff_missing :
    ∃ s' o, step ⟨true, false, true⟩ takeAll (waiting 9) (endAt 5) = some (s', o) ∧
      ∀ k, Contiguous 5 (waiting 9).msgQ k → .decoded k ∈ o := by
  have he : EndsLast (waiting 9) (endAt 5) := ⟨rfl, rfl⟩
  obtain ⟨s', o, hstep, hiff⟩ := backlog_drained_iff ⟨true, false, true⟩ takeAll he
  exact ⟨s', o, hstep, hiff.mpr (by decide)⟩

/-- Packets 5 and 6 wait for the recoveries of the start; the last of these ends at packet 4, and
    packet 5 is not decoded. -/
theorem backlog_left_in_queue :
    ∃ s out s' o, run (step ⟨true, true, true⟩ takeAll) (State.new ())
        [.start, packet 5, packet 6, .endInstrRecovery] = some (s, out) ∧
      EndsLast s (endAt 4) ∧ step ⟨true, true, true⟩ takeAll s (endAt 4) = some (s', o) ∧
      Contiguous (recoveredNum s (endAt 4)) s.msgQ 5 ∧ .decoded 5 ∉ o := by
  have heval : (run (step ⟨true, true, true⟩ takeAll) (State.new ())
      [.start, packet 5, packet 6, .endInstrRecovery]).map (fun r =>
        (r.1.inDataRecovery, r.1.inInstrRecovery, r.1.qseqNum, r.1.msgQ.map Packet.seqnum)) =
        some (true, false, 0, [5, 6]) := by decide +kernel
  obtain ⟨⟨s, out⟩, hrun, heq⟩ := Option.map_eq_some_iff.mp heval
  simp only [Prod.mk.injEq] at heq
  obtain ⟨hdata, hinstr, hq, hqueue⟩ := heq
  have he : EndsLast s (endAt 4) := ⟨hdata, hinstr⟩
  obtain ⟨o, hstep, hnone⟩ := endsLast_step ⟨true, true, true⟩ takeAll he
  have hnum : recoveredNum s (endAt 4) = 4 := by
    change max s.qseqNum 4 = 4
    rw [hq]
    rfl
  have hmem : 5 ∈ s.msgQ.map Packet.seqnum := by
    rw [hqueue]
    decide
  obtain ⟨p, hp, hseq⟩ := List.mem_map.mp hmem
  refine ⟨s, out, _, o, hrun, he, hstep, ?_, hnone 5⟩
  rw [hnum]
  exact contiguous_next hp hseq

end KasparHft.Mdp
