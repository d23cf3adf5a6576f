import KasparHft.MessageProcessor

/-!
# Feed sequencing

The outputs of the message processor move its sequence number in a chain: a decoded packet
is the next one, or any at the start when no number is known; a data recovery and a reset
move it forward from where it stands.  Everything claimed about the order of decoded
packets and about numbers passed over follows from the chain alone.
-/

namespace KasparHft.Mdp

open Machine

/-! ### Chains of outputs -/

/-- The outputs move the sequence number from the first argument to the last. -/
def Chained : ℕ → List Out → ℕ → Prop
  | q, [], q' => q = q'
  | q, .decoded sn :: os, q' => q < sn ∧ (sn = q + 1 ∨ q = 0) ∧ Chained sn os q'
  | q, .recovered current lastSeq :: os, q' =>
      current = q ∧ q < lastSeq ∧ Chained lastSeq os q'
  | q, .resetSn current sn :: os, q' => current = q ∧ q < sn ∧ Chained sn os q'
  | q, .failed _ :: os, q' => Chained q os q'
  | q, .gap :: os, q' => Chained q os q'
  | q, .doDataRecovery :: os, q' => Chained q os q'
  | q, .doInstrRecovery :: os, q' => Chained q os q'

theorem Chained.append {q₁ q₂ q₃ : ℕ} {o₁ o₂ : List Out} (h₁ : Chained q₁ o₁ q₂)
    (h₂ : Chained q₂ o₂ q₃) : Chained q₁ (o₁ ++ o₂) q₃ := by
  induction o₁ generalizing q₁ with
  | nil =>
      cases h₁
      exact h₂
  | cons x os ih =>
      cases x with
      | decoded sn =>
          obtain ⟨hlt, hnext, hrest⟩ := h₁
          exact ⟨hlt, hnext, ih hrest⟩
      | recovered current lastSeq =>
          obtain ⟨hcur, hlt, hrest⟩ := h₁
          exact ⟨hcur, hlt, ih hrest⟩
      | resetSn current sn =>
          obtain ⟨hcur, hlt, hrest⟩ := h₁
          exact ⟨hcur, hlt, ih hrest⟩
      | failed sn => exact ih h₁
      | gap => exact ih h₁
      | doDataRecovery => exact ih h₁
      | doInstrRecovery => exact ih h₁

/-- The sequence numbers decoded successfully, in order. -/
def decodedSns : List Out → List ℕ
  | [] => []
  | .decoded sn :: os => sn :: decodedSns os
  | _ :: os => decodedSns os

/-- Along a chain the decoded numbers increase, from above its start. -/
theorem Chained.increasing {q q' : ℕ} {o : List Out} (h : Chained q o q') :
    (∀ sn ∈ decodedSns o, q < sn) ∧ (decodedSns o).Pairwise (· < ·) := by
  induction o generalizing q with
  | nil => exact ⟨fun _ hsn => (by cases hsn), List.Pairwise.nil⟩
  | cons x os ih =>
      cases x with
      | decoded sn =>
          obtain ⟨hlt, -, hrest⟩ := h
          obtain ⟨habove, hpairs⟩ := ih hrest
          refine ⟨?_, List.pairwise_cons.mpr ⟨habove, hpairs⟩⟩
          intro r hr
          rcases List.mem_cons.mp hr with rfl | hr
          · exact hlt
          · exact Nat.lt_trans hlt (habove r hr)
      | recovered current lastSeq =>
          obtain ⟨-, hlt, hrest⟩ := h
          obtain ⟨habove, hpairs⟩ := ih hrest
          exact ⟨fun r hr => Nat.lt_trans hlt (habove r hr), hpairs⟩
      | resetSn current sn =>
          obtain ⟨-, hlt, hrest⟩ := h
          obtain ⟨habove, hpairs⟩ := ih hrest
          exact ⟨fun r hr => Nat.lt_trans hlt (habove r hr), hpairs⟩
      | failed sn => exact ih h
      | gap => exact ih h
      | doDataRecovery => exact ih h
      | doInstrRecovery => exact ih h

/-- The first output that moves the sequence number is the decoding of `first`. -/
def FirstDecoded (first : ℕ) : List Out → Prop
  | [] => False
  | .decoded sn :: _ => sn = first
  | .recovered .. :: _ => False
  | .resetSn .. :: _ => False
  | _ :: os => FirstDecoded first os

/-- A number that a recovery or a reset moved over. -/
def PassedOver (o : List Out) (sn : ℕ) : Prop :=
  (∃ a b, .recovered a b ∈ o ∧ a < sn ∧ sn ≤ b) ∨ (∃ a b, .resetSn a b ∈ o ∧ a < sn ∧ sn ≤ b)

theorem PassedOver.cons {o : List Out} {sn : ℕ} (x : Out) (h : PassedOver o sn) :
    PassedOver (x :: o) sn := by
  rcases h with ⟨a, b, hmem, hlt, hle⟩ | ⟨a, b, hmem, hlt, hle⟩
  · exact .inl ⟨a, b, List.mem_cons_of_mem _ hmem, hlt, hle⟩
  · exact .inr ⟨a, b, List.mem_cons_of_mem _ hmem, hlt, hle⟩

/-- **Every number a chain moves over is decoded or accounted for.** -/
theorem Chained.accounted {q q' : ℕ} {o : List Out} (h : Chained q o q') {sn : ℕ}
    (hlow : q < sn) (hhigh : sn ≤ q') :
    sn ∈ decodedSns o ∨ PassedOver o sn ∨ (q = 0 ∧ ∃ first, FirstDecoded first o ∧ sn < first) := by
  induction o generalizing q with
  | nil =>
      cases h
      omega
  | cons x os ih =>
      -- outputs that move nothing pass the question on
      have hpass : Chained q os q' → decodedSns (x :: os) = decodedSns os →
          (∀ first, FirstDecoded first os → FirstDecoded first (x :: os)) →
          sn ∈ decodedSns (x :: os) ∨ PassedOver (x :: os) sn ∨
            (q = 0 ∧ ∃ first, FirstDecoded first (x :: os) ∧ sn < first) := by
        intro hrest hdec hfirst
        rcases ih hrest hlow with hmem | hpassed | ⟨hq, first, hf, hlt⟩
        · exact .inl (hdec ▸ hmem)
        · exact .inr (.inl (hpassed.cons x))
        · exact .inr (.inr ⟨hq, first, hfirst first hf, hlt⟩)
      -- after a move the number is known, so no later packet is a first one
      have hmove : ∀ r, q < r → r < sn → Chained r os q' →
          sn ∈ decodedSns os ∨ PassedOver os sn := by
        intro r hr hrsn hrest
        rcases ih hrest hrsn with hmem | hpassed | ⟨hzero, -⟩
        · exact .inl hmem
        · exact .inr hpassed
        · omega
      cases x with
      | decoded r =>
          obtain ⟨hlt, hnext, hrest⟩ := h
          rcases Nat.lt_trichotomy sn r with hbelow | rfl | habove
          · rcases hnext with hnext | hzero
            · omega
            · exact .inr (.inr ⟨hzero, r, rfl, hbelow⟩)
          · exact .inl List.mem_cons_self
          · rcases hmove r hlt habove hrest with hmem | hpassed
            · exact .inl (List.mem_cons_of_mem _ hmem)
            · exact .inr (.inl (hpassed.cons _))
      | recovered current lastSeq =>
          obtain ⟨rfl, hlt, hrest⟩ := h
          by_cases hle : sn ≤ lastSeq
          · exact .inr (.inl (.inl ⟨current, lastSeq, List.mem_cons_self, hlow, hle⟩))
          · rcases hmove lastSeq hlt (by omega) hrest with hmem | hpassed
            · exact .inl hmem
            · exact .inr (.inl (hpassed.cons _))
      | resetSn current r =>
          obtain ⟨rfl, hlt, hrest⟩ := h
          by_cases hle : sn ≤ r
          · exact .inr (.inl (.inr ⟨current, r, List.mem_cons_self, hlow, hle⟩))
          · rcases hmove r hlt (by omega) hrest with hmem | hpassed
            · exact .inl hmem
            · exact .inr (.inl (hpassed.cons _))
      | failed r => exact hpass h rfl fun _ hf => hf
      | gap => exact hpass h rfl fun _ hf => hf
      | doDataRecovery => exact hpass h rfl fun _ hf => hf
      | doInstrRecovery => exact hpass h rfl fun _ hf => hf

/-! ### The handlers move the number in a chain -/

section Handlers

variable {δ Buf : Type} {cfg : Cfg} {dec : Decoder δ Buf} {s s' : State δ Buf} {o : List Out}

/-- What a handler does to the sequence number: its outputs chain the old one to the new
    one, and it resets the number only while recovery is off. -/
structure Moves (cfg : Cfg) (s s' : State δ Buf) (o : List Out) : Prop where
  chained : Chained s.qseqNum o s'.qseqNum
  resets : ∀ a b, .resetSn a b ∈ o → cfg.dorecovery = false

theorem doDataRecovery_moves (h : s.doDataRecovery cfg = some (s', o)) : Moves cfg s s' o := by
  unfold State.doDataRecovery at h
  split_ifs at h
  cases h
  exact ⟨rfl, fun a b hmem => by simp at hmem⟩

theorem doInstrRecovery_moves (cfg : Cfg) (s : State δ Buf) :
    Moves cfg s (s.doInstrRecovery cfg).1 (s.doInstrRecovery cfg).2 := by
  unfold State.doInstrRecovery
  split_ifs
  · exact ⟨rfl, fun a b hmem => by simp at hmem⟩
  · exact ⟨rfl, fun a b hmem => by simp at hmem⟩

/-- What the loop of `processq` does with the packet in front. -/
inductive DrainStep (cfg : Cfg) (dec : Decoder δ Buf) (s : State δ Buf) (p : Packet Buf)
    (ps : List (Packet Buf)) : State δ Buf → List Out → Prop where
  | old {s' : State δ Buf} {o : List Out} (hold : p.seqnum ≤ s.qseqNum)
      (hrest : s.drain cfg dec ps = some (s', o)) : DrainStep cfg dec s p ps s' o
  | fails {s' : State δ Buf} {o : List Out} (hnew : s.qseqNum < p.seqnum)
      (hrc : (dec.decode s.decoder p.message).2.rc = false)
      (hrec : State.doDataRecovery cfg { s with
        decoder := dec.gap (dec.decode s.decoder p.message).1
        msgQ := p :: ps } = some (s', o)) :
      DrainStep cfg dec s p ps s' (.failed p.seqnum :: .gap :: o)
  | decodes {s' : State δ Buf} {o : List Out} (hnew : s.qseqNum < p.seqnum)
      (hnext : p.seqnum = s.qseqNum + 1 ∨ s.qseqNum = 0)
      (hrest : State.drain cfg dec { s with
        decoder := (dec.decode s.decoder p.message).1
        qseqNum := p.seqnum
        waitcnt := if s.waitcnt < maxwaitcnt then maxwaitcnt else s.waitcnt } ps =
          some (s', o)) :
      DrainStep cfg dec s p ps s' (.decoded p.seqnum :: o)
  | waits (hgap : s.qseqNum + 1 < p.seqnum) :
      DrainStep cfg dec s p ps { s with waitcnt := s.waitcnt - 1, msgQ := p :: ps } []
  | recovers {s' : State δ Buf} {o : List Out} (hgap : s.qseqNum + 1 < p.seqnum)
      (hrec : State.doDataRecovery cfg { s with
        waitcnt := s.waitcnt - 1
        msgQ := p :: ps } = some (s', o)) : DrainStep cfg dec s p ps s' o
  | resets (hgap : s.qseqNum + 1 < p.seqnum) (hno : cfg.dorecovery = false) :
      DrainStep cfg dec s p ps
        { s with waitcnt := s.waitcnt - 1, msgQ := p :: ps, qseqNum := p.seqnum - 1 }
        [.resetSn s.qseqNum (p.seqnum - 1)]

theorem drain_cons {p : Packet Buf} {ps : List (Packet Buf)}
    (h : s.drain cfg dec (p :: ps) = some (s', o)) : DrainStep cfg dec s p ps s' o := by
  simp only [State.drain] at h
  by_cases hold : p.seqnum ≤ s.qseqNum
  · rw [if_pos hold] at h
    exact .old hold h
  rw [if_neg hold] at h
  have hnew : s.qseqNum < p.seqnum := Nat.not_le.mp hold
  -- the next number does not wrap: it is at most the number of a packet above the current one
  have hmod : (s.qseqNum + 1) % 2 ^ 32 = s.qseqNum + 1 := by
    have hlt := p.seqnum_lt
    exact Nat.mod_eq_of_lt (by omega)
  rw [hmod] at h
  by_cases hnext : p.seqnum = s.qseqNum + 1 ∨ s.qseqNum = 0
  · rw [if_pos hnext] at h
    by_cases hrc : (dec.decode s.decoder p.message).2.rc = false
    · rw [if_pos hrc] at h
      obtain ⟨⟨t, ot⟩, hrec, heq⟩ := Option.map_eq_some_iff.mp h
      cases heq
      exact .fails hnew hrc hrec
    · rw [if_neg hrc] at h
      obtain ⟨⟨t, ot⟩, hrest, heq⟩ := Option.map_eq_some_iff.mp h
      cases heq
      exact .decodes hnew hnext hrest
  rw [if_neg hnext] at h
  have hgap : s.qseqNum + 1 < p.seqnum := by omega
  by_cases hwait : 0 < s.waitcnt - 1
  · rw [if_pos hwait] at h
    cases h
    exact .waits hgap
  rw [if_neg hwait] at h
  by_cases hrec : cfg.dorecovery = true
  · rw [if_pos hrec] at h
    exact .recovers hgap h
  · rw [if_neg hrec] at h
    cases h
    exact .resets hgap (by simpa using hrec)

theorem drain_moves {ps : List (Packet Buf)} (h : s.drain cfg dec ps = some (s', o)) :
    Moves cfg s s' o := by
  induction ps generalizing s o with
  | nil =>
      cases h
      exact ⟨rfl, fun a b hmem => by cases hmem⟩
  | cons p ps ih =>
      cases drain_cons h with
      | old hold hrest => exact ih hrest
      | fails hnew hrc hrec =>
          have hmoves := doDataRecovery_moves hrec
          refine ⟨hmoves.chained, fun a b hmem => ?_⟩
          simp only [List.mem_cons, reduceCtorEq, false_or] at hmem
          exact hmoves.resets a b hmem
      | decodes hnew hnext hrest =>
          have hmoves := ih hrest
          refine ⟨⟨hnew, hnext, hmoves.chained⟩, fun a b hmem => ?_⟩
          simp only [List.mem_cons, reduceCtorEq, false_or] at hmem
          exact hmoves.resets a b hmem
      | waits hgap => exact ⟨rfl, fun a b hmem => by cases hmem⟩
      | recovers hgap hrec =>
          have hmoves := doDataRecovery_moves hrec
          exact ⟨hmoves.chained, hmoves.resets⟩
      | resets hgap hno =>
          -- the packet is beyond the next number, so the reset moves forward
          exact ⟨⟨rfl, by omega, rfl⟩, fun _ _ _ => hno⟩

theorem processq_moves (h : s.processq cfg dec = some (s', o)) : Moves cfg s s' o := by
  unfold State.processq at h
  split_ifs at h
  · cases h
    exact ⟨rfl, fun a b hmem => by cases hmem⟩
  · exact drain_moves h

/-- **One message moves the sequence number in a chain.** -/
theorem step_moves {e : Event Buf} (h : step cfg dec s e = some (s', o)) : Moves cfg s s' o := by
  cases e with
  | start =>
      have hinstr := doInstrRecovery_moves cfg s
      simp only [step, State.startHandler, instrRecoveryonstart, if_true] at h
      split_ifs at h
      · obtain ⟨⟨t, ot⟩, hdata, heq⟩ := Option.map_eq_some_iff.mp h
        cases heq
        have hmoves := doDataRecovery_moves hdata
        refine ⟨hinstr.chained.append hmoves.chained, fun a b hmem => ?_⟩
        rcases List.mem_append.mp hmem with hmem | hmem
        · exact hinstr.resets a b hmem
        · exact hmoves.resets a b hmem
      · cases h
        exact hinstr
  | processQ m =>
      simp only [step, State.processqHandler] at h
      split_ifs at h
      · cases h
        exact ⟨rfl, fun a b hmem => by cases hmem⟩
      · have hmoves := processq_moves h
        exact ⟨hmoves.chained, hmoves.resets⟩
  | endDataRecovery m =>
      simp only [step, State.enddatarecoveryHandler] at h
      split_ifs at h with hlt
      · obtain ⟨⟨t, ot⟩, hproc, heq⟩ := Option.map_eq_some_iff.mp h
        cases heq
        have hmoves := processq_moves hproc
        refine ⟨⟨rfl, hlt, hmoves.chained⟩, fun a b hmem => ?_⟩
        simp only [List.cons_append, List.nil_append, List.mem_cons, reduceCtorEq,
          false_or] at hmem
        exact hmoves.resets a b hmem
      · obtain ⟨⟨t, ot⟩, hproc, heq⟩ := Option.map_eq_some_iff.mp h
        cases heq
        have hmoves := processq_moves hproc
        exact ⟨hmoves.chained, hmoves.resets⟩
  | endInstrRecovery =>
      simp only [step, State.endinstrrecoveryHandler] at h
      obtain ⟨⟨t, ot⟩, hproc, heq⟩ := Option.map_eq_some_iff.mp h
      cases heq
      have hmoves := processq_moves hproc
      exact ⟨hmoves.chained, hmoves.resets⟩
  | startQ =>
      cases h
      exact ⟨rfl, fun a b hmem => by cases hmem⟩
  | stopQ =>
      cases h
      exact ⟨rfl, fun a b hmem => by cases hmem⟩

/-! ### Runs -/

variable {d : δ} {es : List (Event Buf)} {out : List Out}

theorem run_moves (hrun : run (step cfg dec) (State.new d) es = some (s, out)) :
    Moves cfg (State.new d : State δ Buf) s out := by
  refine run_invariant (I := fun _ out s => Moves cfg (State.new d : State δ Buf) s out)
    ⟨rfl, fun a b hmem => by cases hmem⟩ ?_ hrun
  intro past emitted m e m' o hI hs
  have hmoves := step_moves hs
  refine ⟨hI.chained.append hmoves.chained, fun a b hmem => ?_⟩
  rcases List.mem_append.mp hmem with hmem | hmem
  · exact hI.resets a b hmem
  · exact hmoves.resets a b hmem

/-- **Packets are decoded in order.**  In every run the numbers decoded successfully are
    strictly increasing, and each number up to the current one that was not decoded lies in
    a data recovery, in a reset made with recovery off, or before the first packet decoded
    at the start. -/
theorem decoded_in_order (hrun : run (step cfg dec) (State.new d) es = some (s, out)) :
    (decodedSns out).Pairwise (· < ·) ∧
      ∀ sn, 0 < sn → sn ≤ s.qseqNum → sn ∉ decodedSns out →
        (∃ a b, .recovered a b ∈ out ∧ a < sn ∧ sn ≤ b) ∨
        (cfg.dorecovery = false ∧ ∃ a b, .resetSn a b ∈ out ∧ a < sn ∧ sn ≤ b) ∨
        (∃ first, FirstDecoded first out ∧ sn < first) := by
  have hmoves := run_moves hrun
  refine ⟨hmoves.chained.increasing.2, ?_⟩
  intro sn hpos hle hnot
  rcases hmoves.chained.accounted hpos hle with hmem | hpassed | ⟨-, hfirst⟩
  · exact absurd hmem hnot
  · rcases hpassed with hrec | ⟨a, b, hmem, hlt, hsn⟩
    · exact .inl hrec
    · exact .inr (.inl ⟨hmoves.resets a b hmem, a, b, hmem, hlt, hsn⟩)
  · exact .inr (.inr hfirst)

end Handlers

/-! ### Runs of a small processor -/

/-- A decoder that takes every packet. -/
def takeAll : Decoder Unit Unit where
  decode := fun _ _ => ((), ⟨true, false⟩)
  gap := fun _ => ()

/-- The packet with a number. -/
def packet (sn : Fin (2 ^ 32)) : Event Unit :=
  .processQ ⟨sn, sn.isLt, ()⟩

/-- Packets out of order and repeated: 1, 3, 2, 3 are decoded as 1, 2, 3. -/
theorem decoded_reordered :
    ∃ (s : State Unit Unit) (out : List Out),
      run (step ⟨true, false, true⟩ takeAll) (State.new ())
        [packet 1, packet 3, packet 2, packet 3] = some (s, out) ∧
      decodedSns out = [1, 2, 3] ∧ (decodedSns out).Pairwise (· < ·) := by
  have heval : (run (step ⟨true, false, true⟩ takeAll) (State.new ())
      [packet 1, packet 3, packet 2, packet 3]).map (fun r => decodedSns r.2) =
        some [1, 2, 3] := by decide +kernel
  obtain ⟨⟨s, out⟩, hrun, hdec⟩ := Option.map_eq_some_iff.mp heval
  exact ⟨s, out, hrun, hdec, (decoded_in_order hrun).1⟩

/-- At the start packet 5 is decoded at once; packet 4, which arrives after it, is dropped
    although there was neither a recovery nor a reset. -/
theorem packet_dropped_at_start :
    ∃ (s : State Unit Unit) (out : List Out),
      run (step ⟨true, false, true⟩ takeAll) (State.new ()) [packet 5, packet 4] =
        some (s, out) ∧
      out = [.decoded 5] ∧ s.qseqNum = 5 ∧ 4 ∉ decodedSns out ∧ ¬ PassedOver out 4 := by
  have heval : (run (step ⟨true, false, true⟩ takeAll) (State.new ())
      [packet 5, packet 4]).map (fun r => (r.2, r.1.qseqNum)) = some ([.decoded 5], 5) := by
    decide +kernel
  obtain ⟨⟨s, out⟩, hrun, heq⟩ := Option.map_eq_some_iff.mp heval
  simp only [Prod.mk.injEq] at heq
  obtain ⟨rfl, hq⟩ := heq
  refine ⟨s, _, hrun, rfl, hq, by decide, ?_⟩
  rintro (⟨a, b, hmem, -⟩ | ⟨a, b, hmem, -⟩)
  · simp at hmem
  · simp at hmem

end KasparHft.Mdp
