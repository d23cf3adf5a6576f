import KasparHft.LatencyProbe

/-!
# The bins of the latency probe

A payload adds to the bin that is current, and what it adds does not depend on what is in the bin.
A flush and the bin for a new time move bins from the buffer to the file and lose none, unless the
grid between the last bin and the time does not fit the buffer.
-/

namespace KasparHft.LatencyProbe

open WriteBehind

/-! ### One payload -/

/-- Not rejected. -/
def DataPayLoad.accepted (pl : DataPayLoad) : Bool :=
  pl.publishTs ≠ 0 && pl.hndlTimEpoch ≠ 0 && pl.hndlTimEpoch ≤ pl.publishTs

section Sample

variable {b : PopBin} {st : PopState} {pl : DataPayLoad}

theorem close_batchSum (b : PopBin) (st : PopState) (lastSeq : UInt32) (pl : DataPayLoad) :
    (b.close st lastSeq pl).batchSum = b.batchSum + st.curMsgN ∧
      (b.close st lastSeq pl).allN = b.allN ∧ (b.close st lastSeq pl).n = b.n := by
  unfold PopBin.close
  dsimp only
  split <;> split <;> exact ⟨rfl, rfl, rfl⟩

theorem accepted_iff :
    pl.accepted = true ↔ ¬ pl.publishTs.toNat = 0 ∧ ¬ pl.hndlTimEpoch.toNat = 0 ∧
      ¬ pl.publishTs.toNat < pl.hndlTimEpoch.toNat := by
  simp [DataPayLoad.accepted, UInt64.le_iff_toNat_le, ← UInt64.toNat_inj, and_assoc]

/-- The three rejects together. -/
theorem rejects_eq {γ : Type} (x y : γ) :
    (if pl.publishTs.toNat = 0 then y else if pl.hndlTimEpoch.toNat = 0 then y
      else if pl.publishTs.toNat < pl.hndlTimEpoch.toNat then y else x) =
      if pl.accepted then x else y := by
  by_cases h : pl.accepted = true
  · obtain ⟨ht1, ht0, hback⟩ := accepted_iff.mp h
    rw [if_neg ht1, if_neg ht0, if_neg hback, if_pos h]
  · rw [if_neg h]
    rw [accepted_iff] at h
    split
    next => rfl
    next ht1 =>
      split
      next => rfl
      next ht0 => exact if_pos (by_contra fun hback => h ⟨ht1, ht0, hback⟩)

/-- How many messages of the last packet are banked when a payload comes. -/
def PopState.banked (st : PopState) (pl : DataPayLoad) : ℕ :=
  if st.lastSeq = none ∨ st.lastSeq = some pl.pktSeqNum then 0 else st.curMsgN

theorem boundary_counts (b : PopBin) (st : PopState) (pl : DataPayLoad) :
    (b.boundary st pl).allN = b.allN ∧ (b.boundary st pl).n = b.n ∧
      (b.boundary st pl).batchSum = b.batchSum + st.banked pl := by
  unfold PopBin.boundary PopState.banked
  cases hlast : st.lastSeq with
  | none => exact ⟨rfl, rfl, rfl⟩
  | some lastSeq =>
      obtain ⟨hbatch, hall, hn⟩ := close_batchSum b st lastSeq pl
      by_cases hsame : lastSeq = pl.pktSeqNum
      · simp [hsame]
      · simp [hsame, hbatch, hall, hn]

/-- What a payload adds to the counts of the bin. -/
theorem sample_counts (b : PopBin) (st : PopState) (pl : DataPayLoad) :
    (b.sample st pl).allN = b.allN + 1 ∧
      (b.sample st pl).n = b.n + (if pl.accepted then 1 else 0) ∧
      (b.sample st pl).batchSum = b.batchSum + st.banked pl := by
  obtain ⟨hall, hn, hbatch⟩ := boundary_counts { b with allN := b.allN + 1 } st pl
  rw [PopBin.sample, rejects_eq]
  split
  next => exact ⟨hall, congrArg (· + 1) hn, hbatch⟩
  next => exact ⟨hall, hn, hbatch⟩

/-- What is banked and what is open are one more. -/
theorem banked_add_cur (hfresh : st.lastSeq = none → st.curMsgN = 0) (pl : DataPayLoad) :
    st.banked pl + (st.sample pl).curMsgN = st.curMsgN + 1 := by
  unfold PopState.banked PopState.sample
  by_cases hsame : st.lastSeq = some pl.pktSeqNum
  · rw [if_pos (.inr hsame), if_neg (by simp [hsame])]
    exact Nat.zero_add _
  · rw [if_pos hsame]
    by_cases hnone : st.lastSeq = none
    · rw [if_pos (.inl hnone), hfresh hnone]
    · rw [if_neg (by simp [hnone, hsame])]

theorem sample_lastSeq (st : PopState) (pl : DataPayLoad) : (st.sample pl).lastSeq ≠ none := by
  unfold PopState.sample
  split
  next => simp
  next hsame =>
    rw [not_not] at hsame
    simp [hsame]

end Sample

/-! ### The bins -/

section Bins

variable {cfg : Cfg} {s : Probe}

theorem rowsOf_bins (bins : List Bin) : (rowsOf bins).map Row.bin = bins.map Bin.printed := by
  induction bins using rowsOf.induct with
  | case1 => rfl
  | case2 b => rfl
  | case3 b bins hne ih =>
      rw [rowsOf, List.map_cons, List.map_cons, ih]
      exact hne

/-- The last bin, if there is one, is not written. -/
def Probe.Held (s : Probe) : Prop := s.flushedUpto ≤ s.bins.length - 1

/-- **A flush keeps the bins**: what it writes and what it leaves. -/
theorem flushCsv_spec (hopens : cfg.csvOpens = true) (hheld : s.Held) (final : Bool) :
    ∃ s' rows, s.flushCsv cfg final = (s', rows) ∧
      s' = { s with flushedUpto := if final then s.bins.length else s.bins.length - 1 } ∧
      rows.map Row.bin ++ s'.buffer.pending.map Bin.printed =
        s.buffer.pending.map Bin.printed := by
  unfold Probe.Held at hheld
  unfold Probe.flushCsv
  split
  next hnil =>
    refine ⟨s, [], rfl, ?_, rfl⟩
    have hzero : s.flushedUpto = 0 := by
      rw [hnil] at hheld
      exact Nat.le_zero.mp hheld
    cases s
    cases hnil
    cases hzero
    simp
  next hne =>
    have hpos : 0 < s.bins.length := List.length_pos_iff.mpr hne
    generalize hlast : (if final = true then s.bins.length else s.bins.length - 1) = last
    have hle : s.flushedUpto ≤ last := by
      subst hlast
      split <;> omega
    dsimp only
    split
    next hdone =>
      have hsame : s.flushedUpto = last := by
        simp [hopens] at hdone
        omega
      subst hsame
      exact ⟨s, [], rfl, rfl, rfl⟩
    next =>
      refine ⟨_, _, rfl, rfl, ?_⟩
      rw [rowsOf_bins, ← List.map_append]
      exact congrArg _ (unwritten_append_pending (b := s.buffer) hle)

/-- The grid from the last bin to a time fits the buffer beside that bin. -/
def Probe.Reaches (cfg : Cfg) (s : Probe) (ts : ℕ) : Prop :=
  ∀ back ∈ s.bins.getLast?,
    cfg.key ts ≤ back.key ∨ (cfg.key ts - back.key) / cfg.binNs < cfg.maxBins

instance (cfg : Cfg) (s : Probe) (ts : ℕ) : Decidable (s.Reaches cfg ts) :=
  inferInstanceAs (Decidable (∀ back ∈ s.bins.getLast?, _ ∨ _))

/-- The bins that a time adds to the grid. -/
def Probe.newBins (cfg : Cfg) (s : Probe) (ts : ℕ) : List Bin :=
  match s.bins.getLast? with
  | none => [.empty (cfg.key ts)]
  | some back =>
      if cfg.key ts ≤ back.key then []
      else (following cfg.binNs back.key ((cfg.key ts - back.key) / cfg.binNs)).map Bin.empty

/-- Making room: all but the last bin are written and erased. -/
theorem makeRoom (hopens : cfg.csvOpens = true) {past : List Bin} {back : Bin} {upto : ℕ}
    {f : Pop → PopState} (hupto : upto ≤ past.length) :
    ∃ rows, (Probe.flushCsv cfg ⟨past ++ [back], upto, f⟩ false).2 = rows ∧
      (Probe.flushCsv cfg ⟨past ++ [back], upto, f⟩ false).1.erase = ⟨[back], 0, f⟩ ∧
      rows.map Row.bin ++ [back.printed] =
        (Buffer.pending ⟨past ++ [back], upto⟩).map Bin.printed := by
  have hheld : Probe.Held ⟨past ++ [back], upto, f⟩ := by
    simpa [Probe.Held] using hupto
  obtain ⟨s', rows, hflush, rfl, hkeep⟩ := flushCsv_spec hopens hheld false
  refine ⟨rows, by rw [hflush], ?_, ?_⟩
  · rw [hflush]
    simp [Probe.erase]
  · simpa [Probe.buffer, Buffer.pending] using hkeep

/-- After making room the grid goes on from the last bin, which was kept. -/
theorem keep_extend {rows : List Row} {kept : List Bin} {back : Bin} {f : Pop → PopState}
    (hkeep : rows.map Row.bin ++ [back.printed] = kept.map Bin.printed) (gaps : ℕ) :
    rows.map Row.bin ++
        (Buffer.pending ⟨(Probe.extend cfg ⟨[back], 0, f⟩ back.key gaps).bins, 0⟩).map
          Bin.printed =
      (kept ++ (following cfg.binNs back.key gaps).map Bin.empty).map Bin.printed := by
  have hpending : Buffer.pending ⟨(Probe.extend cfg ⟨[back], 0, f⟩ back.key gaps).bins, 0⟩ =
      [back] ++ (following cfg.binNs back.key gaps).map Bin.empty := rfl
  rw [hpending, List.map_append, List.map_append, ← hkeep, List.append_assoc]
  rfl

/-- **The bin for a time in reach**: the grid goes on, and no bin is lost. -/
theorem binFor_reaches (hopens : cfg.csvOpens = true) (hheld : s.Held) {ts : ℕ}
    (hreach : s.Reaches cfg ts) :
    ∃ bins upto rows, s.binFor cfg ts = ({ s with bins := bins, flushedUpto := upto }, rows) ∧
      upto < bins.length ∧
      rows.map Row.bin ++ (Buffer.pending ⟨bins, upto⟩).map Bin.printed =
        (s.buffer.pending ++ s.newBins cfg ts).map Bin.printed := by
  obtain ⟨bins, upto, f⟩ := s
  rcases List.eq_nil_or_concat bins with rfl | ⟨past, back, rfl⟩
  · obtain rfl := Nat.le_zero.mp hheld
    exact ⟨[.empty (cfg.key ts)], 0, [], rfl, Nat.zero_lt_one, rfl⟩
  · rw [List.concat_eq_append] at *
    have hlast : (past ++ [back]).getLast? = some back := List.getLast?_concat
    have hupto : upto ≤ past.length := by simpa [Probe.Held] using hheld
    have hlt : upto < (past ++ [back]).length := by simp; omega
    have hreach := hreach back hlast
    rw [Probe.binFor, Probe.newBins]
    dsimp only
    rw [hlast]
    dsimp only
    by_cases hle : cfg.key ts ≤ back.key
    · rw [if_pos hle, if_pos hle]
      exact ⟨_, _, [], rfl, hlt, by simp [Probe.buffer]⟩
    · rw [if_neg hle, if_neg hle]
      have hgaps := hreach.resolve_left hle
      generalize (cfg.key ts - back.key) / cfg.binNs = gaps at hgaps ⊢
      by_cases hroom : cfg.maxBins < (past ++ [back]).length + gaps
      · obtain ⟨rows, hrows, herase, hkeep⟩ := makeRoom (f := f) hopens hupto
        rw [if_pos hroom, herase, hrows, if_neg (by simp; omega)]
        have hpos : 0 < (Probe.extend cfg ⟨[back], 0, f⟩ back.key gaps).bins.length :=
          List.length_pos_of_mem (List.mem_append_left _ (List.mem_singleton_self back))
        exact ⟨_, 0, rows, rfl, hpos, keep_extend hkeep gaps⟩
      · rw [if_neg hroom]
        refine ⟨_, upto, [], rfl, ?_, ?_⟩
        · exact List.length_append ▸ Nat.lt_add_right _ hlt
        · rw [List.map_nil, List.nil_append]
          exact congrArg _ (pending_append (b := ⟨past ++ [back], upto⟩) hlt.le _)

/-- **The bin for a time beyond**: the last bin is thrown away. -/
theorem binFor_beyond (hopens : cfg.csvOpens = true) (hheld : s.Held) {ts : ℕ}
    (hbeyond : ¬ s.Reaches cfg ts) :
    ∃ back rows, s.bins.getLast? = some back ∧
      s.binFor cfg ts =
        ({ s with bins := [.empty (cfg.key ts)], flushedUpto := 0 }, rows) ∧
      rows.map Row.bin ++ [back.printed] = s.buffer.pending.map Bin.printed := by
  obtain ⟨bins, upto, f⟩ := s
  rcases List.eq_nil_or_concat bins with rfl | ⟨past, back, rfl⟩
  · exact absurd (fun back hback => by cases hback) hbeyond
  · rw [List.concat_eq_append] at *
    have hlast : (past ++ [back]).getLast? = some back := List.getLast?_concat
    have hupto : upto ≤ past.length := by simpa [Probe.Held] using hheld
    have hneither : ¬ (cfg.key ts ≤ back.key ∨
        (cfg.key ts - back.key) / cfg.binNs < cfg.maxBins) := fun h =>
      hbeyond fun back' hback' => by
        obtain rfl := Option.some.inj (hlast.symm.trans hback')
        exact h
    obtain ⟨hlater, hgaps⟩ := not_or.mp hneither
    obtain ⟨rows, hrows, herase, hkeep⟩ := makeRoom (f := f) hopens hupto
    refine ⟨back, rows, hlast, ?_, hkeep⟩
    rw [Probe.binFor]
    dsimp only
    rw [hlast]
    dsimp only
    rw [if_neg hlater, if_pos (by simp; omega), herase, hrows, if_pos (by simp; omega)]

end Bins

/-! ### The account -/

section Account

variable {cfg : Cfg} {s : Probe} {out : List Row} {f : Bin → ℕ}

/-- What is written and what is to be written. -/
def accounted (f : Bin → ℕ) (out : List Row) (s : Probe) : ℕ :=
  total f (out.map Row.bin) + total f s.buffer.pending

/-- Something of a bin that printing does not change, and that an empty one has none of. -/
structure Counts (f : Bin → ℕ) : Prop where
  printed : ∀ b, f b.printed = f b
  empty : ∀ key, f (.empty key) = 0

theorem Counts.total_printed (hf : Counts f) (bins : List Bin) :
    total f (bins.map Bin.printed) = total f bins := by
  have hsame : f ∘ Bin.printed = f := funext hf.printed
  rw [total_map, hsame]

theorem Counts.newBins (hf : Counts f) (ts : ℕ) : total f (s.newBins cfg ts) = 0 := by
  refine total_eq_zero fun b hb => ?_
  unfold Probe.newBins at hb
  split at hb
  next =>
    obtain rfl := List.mem_singleton.mp hb
    exact hf.empty _
  next =>
    split at hb
    next => cases hb
    next =>
      obtain ⟨key, -, rfl⟩ := List.mem_map.mp hb
      exact hf.empty key

theorem counts_allN (p : Pop) : Counts fun b => (b.of p).allN := ⟨fun _ => rfl, fun _ => rfl⟩

theorem counts_n (p : Pop) : Counts fun b => (b.of p).n := ⟨fun _ => rfl, fun _ => rfl⟩

theorem counts_batchSum (p : Pop) : Counts fun b => (b.of p).batchSum :=
  ⟨fun _ => rfl, fun _ => rfl⟩

/-- A flush writes what it takes. -/
theorem flushCsv_accounted (hf : Counts f) (hopens : cfg.csvOpens = true) (hheld : s.Held)
    (final : Bool) (out : List Row) :
    accounted f (out ++ (s.flushCsv cfg final).2) (s.flushCsv cfg final).1 =
      accounted f out s := by
  obtain ⟨s', rows, hflush, -, hkeep⟩ := flushCsv_spec hopens hheld final
  have htotal := congrArg (total f) hkeep
  rw [total_append, hf.total_printed, hf.total_printed] at htotal
  rw [hflush, accounted, accounted, List.map_append, total_append, ← htotal, Nat.add_assoc]

theorem binFor_accounted (hf : Counts f) (hopens : cfg.csvOpens = true) (hheld : s.Held) {ts : ℕ}
    (hreach : s.Reaches cfg ts) (out : List Row) :
    accounted f (out ++ (s.binFor cfg ts).2) (s.binFor cfg ts).1 = accounted f out s := by
  obtain ⟨bins, upto, rows, hbin, -, hkeep⟩ := binFor_reaches hopens hheld hreach
  have htotal := congrArg (total f) hkeep
  rw [total_append, hf.total_printed, hf.total_printed, total_append, hf.newBins, Nat.add_zero]
    at htotal
  rw [hbin, accounted, accounted, List.map_append, total_append, ← htotal, Nat.add_assoc]
  rfl

/-- What was in the last bin is not accounted for any more. -/
theorem binFor_beyond_accounted (hf : Counts f) (hopens : cfg.csvOpens = true) (hheld : s.Held)
    {ts : ℕ} (hbeyond : ¬ s.Reaches cfg ts) (out : List Row) :
    ∃ back, s.bins.getLast? = some back ∧
      accounted f (out ++ (s.binFor cfg ts).2) (s.binFor cfg ts).1 + f back =
        accounted f out s := by
  obtain ⟨back, rows, hlast, hbin, hkeep⟩ := binFor_beyond hopens hheld hbeyond
  have htotal := congrArg (total f) hkeep
  rw [total_append, total_singleton, hf.printed, hf.total_printed] at htotal
  have hleft : total f (Buffer.pending ⟨[.empty (cfg.key ts)], 0⟩) = 0 := by
    rw [Buffer.pending, List.drop_zero, total_singleton, hf.empty]
  refine ⟨back, hlast, ?_⟩
  rw [hbin, accounted, accounted, List.map_append, total_append, Probe.buffer, hleft, ← htotal,
    Nat.add_zero, Nat.add_assoc]

theorem fill_pending (h : s.flushedUpto < s.bins.length) (pl : DataPayLoad) (pop : Pop) :
    (s.fill pl pop).buffer.pending =
      s.buffer.pending.modifyLast fun b => b.update pop fun c => c.sample (s.of pop) pl :=
  pending_modifyLast (b := s.buffer) h _

/-- What a payload adds to the last bin, it adds to the account. -/
theorem fill_accounted (h : s.flushedUpto < s.bins.length) {pl : DataPayLoad} {pop : Pop} {d : ℕ}
    (hd : ∀ b, f (b.update pop fun c => c.sample (s.of pop) pl) = f b + d) (out : List Row) :
    accounted f out (s.fill pl pop) = accounted f out s + d := by
  have hne : s.buffer.pending ≠ [] := List.drop_eq_nil_iff.not.mpr (Nat.not_le.mpr h)
  rw [accounted, accounted, fill_pending h, total_modifyLast hne hd, Nat.add_assoc]

/-- The bins of the rows and those that are not written are on the grid. -/
def OnGrid (cfg : Cfg) (out : List Row) (s : Probe) : Prop :=
  Spaced cfg.binNs (out.map (fun r => r.bin.key) ++ s.buffer.pending.map Bin.key)

theorem keys_printed (bins : List Bin) : (bins.map Bin.printed).map Bin.key = bins.map Bin.key := by
  rw [List.map_map]
  rfl

theorem rows_keys (rows : List Row) :
    (rows.map Row.bin).map Bin.key = rows.map fun r => r.bin.key := by
  rw [List.map_map]
  rfl

theorem flushCsv_onGrid (hopens : cfg.csvOpens = true) (hheld : s.Held) (final : Bool)
    (out : List Row) :
    OnGrid cfg (out ++ (s.flushCsv cfg final).2) (s.flushCsv cfg final).1 ↔
      OnGrid cfg out s := by
  obtain ⟨s', rows, hflush, -, hkeep⟩ := flushCsv_spec hopens hheld final
  have hkeys := congrArg (List.map Bin.key) hkeep
  rw [List.map_append, rows_keys, keys_printed, keys_printed] at hkeys
  rw [hflush, OnGrid, OnGrid, List.map_append, List.append_assoc, hkeys]

theorem binFor_onGrid (hopens : cfg.csvOpens = true) (hheld : s.Held) {ts : ℕ}
    (hreach : s.Reaches cfg ts) (hnone : s.bins = [] → out = []) (h : OnGrid cfg out s) :
    OnGrid cfg (out ++ (s.binFor cfg ts).2) (s.binFor cfg ts).1 := by
  obtain ⟨bins, upto, rows, hbin, -, hkeep⟩ := binFor_reaches hopens hheld hreach
  have hkeys := congrArg (List.map Bin.key) hkeep
  rw [List.map_append, rows_keys, keys_printed, keys_printed, List.map_append] at hkeys
  rw [hbin, OnGrid, List.map_append, List.append_assoc]
  rw [Probe.buffer, hkeys, ← List.append_assoc]
  clear hbin hkeep hkeys
  obtain ⟨bins, upto, f⟩ := s
  rcases List.eq_nil_or_concat bins with rfl | ⟨past, back, rfl⟩
  · obtain rfl := hnone rfl
    obtain rfl := Nat.le_zero.mp hheld
    exact List.isChain_singleton _
  · rw [List.concat_eq_append] at *
    have hupto : upto ≤ past.length := by simpa [Probe.Held] using hheld
    rw [OnGrid, Probe.buffer] at h
    rw [Probe.buffer, Probe.newBins, List.getLast?_concat]
    dsimp only at h ⊢
    by_cases hle : cfg.key ts ≤ back.key
    · rw [if_pos hle, List.map_nil, List.append_nil]
      exact h
    · have hkeys : ∀ ks : List ℕ, (ks.map Bin.empty).map Bin.key = ks := fun ks => by
        rw [List.map_map]
        exact List.map_id ks
      rw [if_neg hle, hkeys]
      rw [pending_concat hupto, List.map_append, List.map_singleton, ← List.append_assoc] at h ⊢
      exact spaced_following h _

theorem fill_onGrid (h : s.flushedUpto < s.bins.length) (pl : DataPayLoad) (pop : Pop) :
    OnGrid cfg out (s.fill pl pop) ↔ OnGrid cfg out s := by
  rw [OnGrid, OnGrid, fill_pending h, map_modifyLast]
  exact fun _ => rfl

end Account

end KasparHft.LatencyProbe
