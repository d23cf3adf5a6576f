import KasparHft.LatencyBins
import KasparHft.Machine

/-!
# No sample is lost

What is written and what is held back are together an account of all payloads, as long as none is
observed so long after the last bin that the grid between does not fit the buffer.  If one is, the
last bin is thrown away with what was summed up in it.
-/

namespace KasparHft.LatencyProbe

open Machine WriteBehind

/-! ### What is to be accounted for -/

/-- The population, the payload and the time of observation. -/
def Event.sampled : Event → Option (Pop × DataPayLoad × UInt64)
  | .endOfBurst (some pl) t2 => some (.book, pl, t2)
  | .tradeNotify (some pl) t2 => some (.trade, pl, t2)
  | .endOfBurst none _ | .tradeNotify none _ | .timeout => none

def Event.observes (p : Pop) (e : Event) : Bool := e.sampled.any fun x => x.1 = p

def Event.accepts (p : Pop) (e : Event) : Bool :=
  e.sampled.any fun x => x.1 = p && x.2.1.accepted

/-- The payloads of a population. -/
def seen (p : Pop) (es : List Event) : ℕ := es.countP (Event.observes p)

/-- The payloads that are not rejected. -/
def accepted (p : Pop) (es : List Event) : ℕ := es.countP (Event.accepts p)

/-- The rows are on the grid, each bin once, and sum up to all payloads; those of the open packet
    are not yet in `batch_sum`. -/
structure Complete (cfg : Cfg) (es : List Event) (rows : List Row) (s : Probe) : Prop where
  keys : Spaced cfg.binNs (rows.map fun r => r.bin.key)
  once : (rows.map fun r => r.bin.key).Nodup
  all : ∀ p, total (fun b => (b.of p).allN) (rows.map Row.bin) = seen p es
  sampled : ∀ p, total (fun b => (b.of p).n) (rows.map Row.bin) = accepted p es
  batches : ∀ p, total (fun b => (b.of p).batchSum) (rows.map Row.bin) + (s.of p).curMsgN =
    seen p es

/-- A payload is observed less than `max_bins` bins after the last. -/
def InReach (cfg : Cfg) (s : Probe) (e : Event) : Prop :=
  ∀ x ∈ e.sampled, s.Reaches cfg x.2.2.toNat

instance (cfg : Cfg) (s : Probe) (e : Event) : Decidable (InReach cfg s e) :=
  inferInstanceAs (Decidable (∀ x ∈ e.sampled, _))

/-! ### Runs -/

section Runs

variable {cfg : Cfg} {s : Probe} {past : List Event} {out : List Row} {e : Event} {pop : Pop}
  {pl : DataPayLoad} {t2 : UInt64}

/-- The payloads of both populations in a bin. -/
def Bin.all (b : Bin) : ℕ := (b.of .book).allN + (b.of .trade).allN

theorem counts_all : Counts Bin.all := ⟨fun _ => rfl, fun _ => rfl⟩

/-- What every run keeps. -/
structure Tidy (out : List Row) (s : Probe) : Prop where
  held : s.Held
  unwritten : s.bins = [] → out = []
  counted : ∀ back ∈ s.bins.getLast?, 1 ≤ back.all
  fresh : ∀ p, (s.of p).lastSeq = none → (s.of p).curMsgN = 0

/-- What a run keeps whose payloads are all in reach. -/
structure Whole (cfg : Cfg) (past : List Event) (out : List Row) (s : Probe) : Prop where
  grid : OnGrid cfg out s
  all : ∀ p, accounted (fun b => (b.of p).allN) out s = seen p past
  sampled : ∀ p, accounted (fun b => (b.of p).n) out s = accepted p past
  batches : ∀ p, accounted (fun b => (b.of p).batchSum) out s + (s.of p).curMsgN = seen p past

/-- What a payload adds to the counts of each population. -/
theorem update_counts (b : Bin) (st : PopState) (pl : DataPayLoad) (pop p : Pop) :
    ((b.update pop fun c => c.sample st pl).of p).allN =
        (b.of p).allN + (if pop = p then 1 else 0) ∧
      ((b.update pop fun c => c.sample st pl).of p).n =
        (b.of p).n + (if pop = p ∧ pl.accepted then 1 else 0) ∧
      ((b.update pop fun c => c.sample st pl).of p).batchSum =
        (b.of p).batchSum + (if pop = p then st.banked pl else 0) := by
  unfold Bin.update
  dsimp only
  by_cases hp : pop = p
  · subst hp
    rw [Function.update_self]
    simpa using sample_counts (b.of pop) st pl
  · rw [Function.update_of_ne (Ne.symm hp)]
    simp [hp]

theorem all_update (b : Bin) (st : PopState) (pl : DataPayLoad) (pop : Pop) :
    (b.update pop fun c => c.sample st pl).all = b.all + 1 := by
  obtain ⟨hbook, -⟩ := update_counts b st pl pop .book
  obtain ⟨htrade, -⟩ := update_counts b st pl pop .trade
  rw [Bin.all, hbook, htrade, Bin.all]
  cases pop with
  | book => simp; omega
  | trade => simp; omega

theorem seen_concat (p : Pop) (h : e.sampled = some (pop, pl, t2)) :
    seen p (past ++ [e]) = seen p past + (if pop = p then 1 else 0) := by
  simp [seen, Event.observes, h]

theorem accepted_concat (p : Pop) (h : e.sampled = some (pop, pl, t2)) :
    accepted p (past ++ [e]) =
      accepted p past + (if pop = p ∧ pl.accepted then 1 else 0) := by
  simp [accepted, Event.accepts, h]

theorem seen_concat_none (past : List Event) (p : Pop) (h : e.sampled = none) :
    seen p (past ++ [e]) = seen p past ∧ accepted p (past ++ [e]) = accepted p past := by
  simp [seen, accepted, Event.observes, Event.accepts, h]

theorem step_of_sampled (h : e.sampled = some (pop, pl, t2)) :
    step cfg s e =
      some ((s.binFor cfg t2.toNat).1.fill pl pop, (s.binFor cfg t2.toNat).2) := by
  cases e with
  | endOfBurst payload epoch =>
      cases payload with
      | none => cases h
      | some pl =>
          cases h
          rfl
  | tradeNotify payload epoch =>
      cases payload with
      | none => cases h
      | some pl =>
          cases h
          rfl
  | timeout => cases h

theorem step_of_none (cfg : Cfg) (s : Probe) (h : e.sampled = none) :
    step cfg s e = some (s, []) ∨ step cfg s e = some (s.flushCsv cfg false) := by
  cases e with
  | endOfBurst payload epoch =>
      cases payload with
      | none => exact .inl rfl
      | some pl => cases h
  | tradeNotify payload epoch =>
      cases payload with
      | none => exact .inl rfl
      | some pl => cases h
  | timeout => exact .inr rfl

theorem binFor_open (hopens : cfg.csvOpens = true) (hheld : s.Held) (ts : ℕ) :
    (s.binFor cfg ts).1.flushedUpto < (s.binFor cfg ts).1.bins.length ∧
      (s.binFor cfg ts).1.of = s.of := by
  by_cases hreach : s.Reaches cfg ts
  · obtain ⟨bins, upto, rows, hbin, hlt, -⟩ := binFor_reaches hopens hheld hreach
    rw [hbin]
    exact ⟨hlt, rfl⟩
  · obtain ⟨back, rows, -, hbin, -⟩ := binFor_beyond hopens hheld hreach
    rw [hbin]
    exact ⟨Nat.zero_lt_one, rfl⟩

theorem fill_tidy (hlt : s.flushedUpto < s.bins.length)
    (hfresh : ∀ p, (s.of p).lastSeq = none → (s.of p).curMsgN = 0) :
    Tidy out (s.fill pl pop) := by
  have hlength : (s.fill pl pop).bins.length = s.bins.length := length_modifyLast _ _
  refine ⟨?_, fun hnil => ?_, ?_, fun p => ?_⟩
  · have hupto : (s.fill pl pop).flushedUpto = s.flushedUpto := rfl
    rw [Probe.Held, hlength, hupto]
    omega
  · rw [hnil] at hlength
    rw [← hlength] at hlt
    exact absurd hlt (Nat.not_lt_zero _)
  · intro back hback
    rw [Probe.fill, getLast?_modifyLast] at hback
    obtain ⟨b, -, rfl⟩ := Option.map_eq_some_iff.mp hback
    rw [all_update]
    exact Nat.le_add_left 1 _
  · rw [Probe.fill]
    dsimp only
    by_cases hp : p = pop
    · subst hp
      rw [Function.update_self]
      exact fun hnone => absurd hnone (sample_lastSeq _ pl)
    · rw [Function.update_of_ne hp]
      exact hfresh p

theorem flushCsv_tidy (h : Tidy out s) (hopens : cfg.csvOpens = true) :
    Tidy (out ++ (s.flushCsv cfg false).2) (s.flushCsv cfg false).1 := by
  obtain ⟨s', rows, hflush, rfl, hkeep⟩ := flushCsv_spec hopens h.held false
  rw [hflush]
  refine ⟨Nat.le_refl _, fun hnil => ?_, h.counted, h.fresh⟩
  have hbins : s.bins = [] := hnil
  obtain rfl := h.unwritten hbins
  simp [Probe.buffer, Buffer.pending, hbins] at hkeep
  exact hkeep

/-- A payload in reach is accounted for. -/
theorem sample_whole (hopens : cfg.csvOpens = true) (htidy : Tidy out s) (h : Whole cfg past out s)
    (he : e.sampled = some (pop, pl, t2)) (hreach : s.Reaches cfg t2.toNat) :
    Whole cfg (past ++ [e]) (out ++ (s.binFor cfg t2.toNat).2)
      ((s.binFor cfg t2.toNat).1.fill pl pop) := by
  obtain ⟨hlt, hof⟩ := binFor_open hopens htidy.held t2.toNat
  have hkeep := fun {f : Bin → ℕ} (hf : Counts f) =>
    binFor_accounted hf hopens htidy.held hreach out
  have hcounts := fun b p => update_counts b ((s.binFor cfg t2.toNat).1.of pop) pl pop p
  refine ⟨?_, fun p => ?_, fun p => ?_, fun p => ?_⟩
  · rw [fill_onGrid hlt]
    exact binFor_onGrid hopens htidy.held hreach htidy.unwritten h.grid
  · rw [fill_accounted hlt fun b => (hcounts b p).1, hkeep (counts_allN p), h.all p,
      seen_concat p he]
  · rw [fill_accounted hlt fun b => (hcounts b p).2.1, hkeep (counts_n p), h.sampled p,
      accepted_concat p he]
  · rw [fill_accounted hlt fun b => (hcounts b p).2.2, hkeep (counts_batchSum p),
      seen_concat p he, ← h.batches p]
    rw [hof, Probe.fill]
    dsimp only
    by_cases hp : pop = p
    · subst hp
      have hbanked := banked_add_cur (htidy.fresh pop) pl
      rw [if_pos rfl, if_pos rfl, Function.update_self, hof]
      omega
    · rw [if_neg hp, if_neg hp, Function.update_of_ne (Ne.symm hp), hof]
      omega

/-- After a payload beyond reach, nothing more is accounted for than before. -/
theorem sample_beyond_le (pl : DataPayLoad) (pop : Pop) (hopens : cfg.csvOpens = true)
    (htidy : Tidy out s) (hbeyond : ¬ s.Reaches cfg t2.toNat) :
    accounted Bin.all (out ++ (s.binFor cfg t2.toNat).2)
      ((s.binFor cfg t2.toNat).1.fill pl pop) ≤ accounted Bin.all out s := by
  obtain ⟨hlt, -⟩ := binFor_open hopens htidy.held t2.toNat
  obtain ⟨back, hback, hlost⟩ :=
    binFor_beyond_accounted counts_all hopens htidy.held hbeyond out
  have hcounted := htidy.counted back hback
  rw [fill_accounted hlt fun b => all_update b _ pl pop, ← hlost]
  omega

theorem sample_all_le (pl : DataPayLoad) (pop : Pop) (t2 : UInt64)
    (hopens : cfg.csvOpens = true) (htidy : Tidy out s) :
    accounted Bin.all (out ++ (s.binFor cfg t2.toNat).2)
      ((s.binFor cfg t2.toNat).1.fill pl pop) ≤ accounted Bin.all out s + 1 := by
  by_cases hreach : s.Reaches cfg t2.toNat
  · obtain ⟨hlt, -⟩ := binFor_open hopens htidy.held t2.toNat
    rw [fill_accounted hlt fun b => all_update b _ pl pop,
      binFor_accounted counts_all hopens htidy.held hreach]
  · exact (sample_beyond_le pl pop hopens htidy hreach).trans (Nat.le_succ _)

theorem accounted_all (out : List Row) (s : Probe) :
    accounted Bin.all out s =
      accounted (fun b => (b.of .book).allN) out s +
        accounted (fun b => (b.of .trade).allN) out s := by
  unfold accounted
  have hall : Bin.all = fun b => (b.of .book).allN + (b.of .trade).allN := rfl
  rw [hall, total_add, total_add]
  omega

/-- What is known after some events: either all payloads were in reach and are accounted for, or
    some are lost. -/
structure Known (cfg : Cfg) (past : List Event) (out : List Row) (s : Probe) : Prop where
  tidy : Tidy out s
  whole : AllSteps (step cfg) (InReach cfg) Probe.initial past → Whole cfg past out s
  short : ¬ AllSteps (step cfg) (InReach cfg) Probe.initial past →
    accounted Bin.all out s < seen .book past + seen .trade past

theorem known_initial (cfg : Cfg) : Known cfg [] [] Probe.initial := by
  refine ⟨⟨Nat.le_refl _, fun _ => rfl, ?_, fun _ _ => rfl⟩, fun _ => ?_, fun h => ?_⟩
  · intro back hback
    cases hback
  · exact ⟨List.isChain_nil, fun _ => rfl, fun _ => rfl, fun _ => rfl⟩
  · exact absurd trivial h

/-- What an event without a payload keeps. -/
theorem idle_keeps (hopens : cfg.csvOpens = true) (he : e.sampled = none) (h : Tidy out s)
    {s' : Probe} {rows : List Row} (hstep : step cfg s e = some (s', rows)) :
    Tidy (out ++ rows) s' ∧
      (∀ f, Counts f → accounted f (out ++ rows) s' = accounted f out s) ∧
      (OnGrid cfg (out ++ rows) s' ↔ OnGrid cfg out s) ∧ s'.of = s.of := by
  rcases step_of_none cfg s he with hidle | hflush
  · obtain ⟨rfl, rfl⟩ := Prod.mk.inj (Option.some.inj (hidle.symm.trans hstep))
    rw [List.append_nil]
    exact ⟨h, fun _ _ => rfl, Iff.rfl, rfl⟩
  · have hsame := Option.some.inj (hflush.symm.trans hstep)
    have htidy := flushCsv_tidy h hopens
    have hkeep := fun f hf => flushCsv_accounted (f := f) hf hopens h.held false out
    have hgrid := flushCsv_onGrid hopens h.held false out
    obtain ⟨t, rs, hspec, ht, -⟩ := flushCsv_spec hopens h.held false
    rw [hspec] at hsame
    rw [hspec] at htidy hkeep hgrid
    obtain ⟨rfl, rfl⟩ := Prod.mk.inj hsame
    exact ⟨htidy, hkeep, hgrid, by rw [ht]⟩

theorem known_idle (hopens : cfg.csvOpens = true)
    (hrun : run (step cfg) Probe.initial past = some (s, out)) (h : Known cfg past out s)
    (he : e.sampled = none) {s' : Probe} {rows : List Row}
    (hstep : step cfg s e = some (s', rows)) : Known cfg (past ++ [e]) (out ++ rows) s' := by
  obtain ⟨htidy, hkeep, hgrid, hof⟩ := idle_keeps hopens he h.tidy hstep
  have hsame := fun p => seen_concat_none past p he
  have hreach : InReach cfg s e := fun x hx => by
    rw [he] at hx
    cases hx
  refine ⟨htidy, fun hall => ?_, fun hnot => ?_⟩
  · have hwhole := h.whole ((allSteps_concat hrun).mp hall).1
    refine ⟨hgrid.mpr hwhole.grid, fun p => ?_, fun p => ?_, fun p => ?_⟩
    · rw [hkeep _ (counts_allN p), hwhole.all p, (hsame p).1]
    · rw [hkeep _ (counts_n p), hwhole.sampled p, (hsame p).2]
    · rw [hkeep _ (counts_batchSum p), hof, hwhole.batches p, (hsame p).1]
  · have hshort := h.short fun hall => hnot ((allSteps_concat hrun).mpr ⟨hall, hreach⟩)
    rwa [hkeep _ counts_all, (hsame .book).1, (hsame .trade).1]

theorem known_sampled (hopens : cfg.csvOpens = true)
    (hrun : run (step cfg) Probe.initial past = some (s, out)) (h : Known cfg past out s)
    (he : e.sampled = some (pop, pl, t2)) :
    Known cfg (past ++ [e]) (out ++ (s.binFor cfg t2.toNat).2)
      ((s.binFor cfg t2.toNat).1.fill pl pop) := by
  obtain ⟨hlt, hof⟩ := binFor_open hopens h.tidy.held t2.toNat
  have hreach : InReach cfg s e ↔ s.Reaches cfg t2.toNat := by
    unfold InReach
    rw [he]
    simp
  have hone : seen .book (past ++ [e]) + seen .trade (past ++ [e]) =
      seen .book past + seen .trade past + 1 := by
    rw [seen_concat .book he, seen_concat .trade he]
    cases pop with
    | book => simp; omega
    | trade => simp; omega
  refine ⟨fill_tidy hlt fun p => by rw [hof]; exact h.tidy.fresh p, fun hall => ?_, fun hnot => ?_⟩
  · obtain ⟨hpast, hhere⟩ := (allSteps_concat hrun).mp hall
    exact sample_whole hopens h.tidy (h.whole hpast) he (hreach.mp hhere)
  · rw [hone]
    by_cases hpast : AllSteps (step cfg) (InReach cfg) Probe.initial past
    · have hbeyond : ¬ s.Reaches cfg t2.toNat := fun hhere =>
        hnot ((allSteps_concat hrun).mpr ⟨hpast, hreach.mpr hhere⟩)
      have hwhole := h.whole hpast
      have hle := sample_beyond_le pl pop hopens h.tidy hbeyond
      rw [accounted_all out s, hwhole.all, hwhole.all] at hle
      omega
    · have hshort := h.short hpast
      have hle := sample_all_le pl pop t2 hopens h.tidy
      omega

/-- **Every run**: it goes on, and what is known of it. -/
theorem exists_known (hopens : cfg.csvOpens = true) (es : List Event) :
    ∃ s out, run (step cfg) Probe.initial es = some (s, out) ∧ Known cfg es out s := by
  have htotal : ∀ s e, ∃ r, step cfg s e = some r := fun s e => by
    cases e <;> exact ⟨_, rfl⟩
  obtain ⟨s, out, hrun⟩ := exists_run htotal Probe.initial es
  refine ⟨s, out, hrun, ?_⟩
  refine (run_invariant (I := fun past out s =>
    run (step cfg) Probe.initial past = some (s, out) ∧ Known cfg past out s)
    ⟨rfl, known_initial cfg⟩ ?_ hrun).2
  rintro past out s e s' rows ⟨hpast, h⟩ hstep
  refine ⟨run_concat.mpr ⟨s, out, rows, hpast, hstep, rfl⟩, ?_⟩
  rcases he : e.sampled with _ | ⟨pop, pl, t2⟩
  · exact known_idle hopens hpast h he hstep
  · obtain ⟨rfl, rfl⟩ :=
      Prod.mk.inj (Option.some.inj ((step_of_sampled he).symm.trans hstep))
    exact known_sampled hopens hpast h he

/-- After the final flush everything that is accounted for is in the rows. -/
theorem final_rows (hopens : cfg.csvOpens = true) (hheld : s.Held) (out : List Row) :
    (∀ f, Counts f → total f ((out ++ (s.flushCsv cfg true).2).map Row.bin) =
        accounted f out s) ∧
      (Spaced cfg.binNs ((out ++ (s.flushCsv cfg true).2).map fun r => r.bin.key) ↔
        OnGrid cfg out s) := by
  have hgrid := flushCsv_onGrid hopens hheld true out
  have hkeep := fun f hf => flushCsv_accounted (f := f) hf hopens hheld true out
  obtain ⟨s', rows, hflush, rfl, -⟩ := flushCsv_spec hopens hheld true
  rw [hflush] at hgrid hkeep ⊢
  have hnone : Buffer.pending (Probe.buffer { s with flushedUpto := s.bins.length }) = [] :=
    List.drop_length
  refine ⟨fun f hf => ?_, ?_⟩
  · rw [← hkeep f hf, accounted]
    simp only [if_true]
    rw [hnone, total_nil, Nat.add_zero]
  · rw [← hgrid, OnGrid]
    simp only [if_true]
    rw [hnone, List.map_nil, List.append_nil]

theorem binNs_pos (cfg : Cfg) : 0 < cfg.binNs := Nat.mul_pos cfg.binMs_pos (by decide)

/-- **No sample is lost** exactly in the runs whose payloads are all in reach. -/
theorem samples_complete_iff (cfg : Cfg) (hopens : cfg.csvOpens = true) (es : List Event) :
    ∃ s out, run (step cfg) Probe.initial es = some (s, out) ∧
      (Complete cfg es (out ++ (s.flushCsv cfg true).2) s ↔
        AllSteps (step cfg) (InReach cfg) Probe.initial es) := by
  obtain ⟨s, out, hrun, hknown⟩ := exists_known hopens es
  obtain ⟨hrows, hgrid⟩ := final_rows hopens hknown.tidy.held out
  refine ⟨s, out, hrun, fun hcomplete => ?_, fun hall => ?_⟩
  · by_contra hnot
    have hshort := hknown.short hnot
    rw [accounted_all, ← hrows _ (counts_allN .book), ← hrows _ (counts_allN .trade),
      hcomplete.all, hcomplete.all] at hshort
    exact Nat.lt_irrefl _ hshort
  · have hwhole := hknown.whole hall
    have hspaced := hgrid.mpr hwhole.grid
    refine ⟨hspaced, hspaced.nodup (binNs_pos cfg), fun p => ?_, fun p => ?_, fun p => ?_⟩
    · rw [hrows _ (counts_allN p), hwhole.all p]
    · rw [hrows _ (counts_n p), hwhole.sampled p]
    · rw [hrows _ (counts_batchSum p), hwhole.batches p]

/-- Two updates a quarter of a second apart, with a flush between, and a trade that is observed
    before the second. -/
theorem complete_three_bins :
    ∃ s out, run (step .standard) Probe.initial
        [.endOfBurst (some ⟨1, 2, 0, 7, 0⟩) 1580515200000000000, .timeout,
          .endOfBurst (some ⟨3, 5, 1, 7, 2⟩) 1580515200250000000,
          .tradeNotify (some ⟨0, 5, 0, 8, 2⟩) 1580515200040000000] = some (s, out) ∧
      Complete .standard
        [.endOfBurst (some ⟨1, 2, 0, 7, 0⟩) 1580515200000000000, .timeout,
          .endOfBurst (some ⟨3, 5, 1, 7, 2⟩) 1580515200250000000,
          .tradeNotify (some ⟨0, 5, 0, 8, 2⟩) 1580515200040000000]
        (out ++ (s.flushCsv .standard true).2) s := by
  obtain ⟨s, out, hrun, hiff⟩ := samples_complete_iff .standard rfl
    [.endOfBurst (some ⟨1, 2, 0, 7, 0⟩) 1580515200000000000, .timeout,
      .endOfBurst (some ⟨3, 5, 1, 7, 2⟩) 1580515200250000000,
      .tradeNotify (some ⟨0, 5, 0, 8, 2⟩) 1580515200040000000]
  exact ⟨s, out, hrun, hiff.mpr (by decide +kernel)⟩

/-- Two updates eight hours and twenty minutes apart, with a flush between: the first is in no
    row. -/
theorem night_gap_lost :
    ∃ s out, run (step .standard) Probe.initial
        [.endOfBurst (some ⟨1, 2, 0, 7, 0⟩) 1580515200000000000, .timeout,
          .endOfBurst (some ⟨3, 5, 0, 8, 0⟩) 1580545200000000000] = some (s, out) ∧
      ¬ Complete .standard
        [.endOfBurst (some ⟨1, 2, 0, 7, 0⟩) 1580515200000000000, .timeout,
          .endOfBurst (some ⟨3, 5, 0, 8, 0⟩) 1580545200000000000]
        (out ++ (s.flushCsv .standard true).2) s := by
  have hshown : (run (step .standard) Probe.initial
      [.endOfBurst (some ⟨1, 2, 0, 7, 0⟩) 1580515200000000000, .timeout,
        .endOfBurst (some ⟨3, 5, 0, 8, 0⟩) 1580545200000000000]).map (fun r =>
      total (fun b => (b.of .book).allN)
        ((r.2 ++ (r.1.flushCsv .standard true).2).map Row.bin)) = some 1 := by
    decide +kernel
  obtain ⟨⟨s, out⟩, hrun, hone⟩ := Option.map_eq_some_iff.mp hshown
  refine ⟨s, out, hrun, fun hcomplete => ?_⟩
  have hall := hone.symm.trans (hcomplete.all .book)
  exact absurd hall (by decide)

end Runs

end KasparHft.LatencyProbe
