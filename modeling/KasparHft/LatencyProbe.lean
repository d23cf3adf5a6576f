import KasparHft.WriteBehind
import Mathlib.Logic.Function.Basic

/-!
# The latency probe

`LatencyProbe.hpp`: a subscriber of a book measures how long after it was read from the socket each
payload was published.  The measurements are summed up in bins of equal length on a grid of wall
clock time, and the bins are appended to a CSV file from time to time; the bin that is still
filling is held back.

Counters are natural numbers, since they are taken not to overflow.  The counters and histograms of
the console dump, the binary logs beside the CSV file, and its header are left out.
-/

namespace KasparHft.LatencyProbe

open WriteBehind (Buffer)

/-! ### Payloads and bins -/

/-- `POP_BOOK` and `POP_TRADE`. -/
inductive Pop where
  | book
  | trade
deriving DecidableEq

/-- What the probe reads of `data_pay_load`. -/
structure DataPayLoad where
  hndlTimEpoch : UInt64
  publishTs : UInt64
  pktEntryIdx : UInt32
  pktSeqNum : UInt32
  ingressQlen : UInt32

/-- `NOMIN`. -/
def nomin : ℕ := 0xFFFFFFFF

/-- `NOTIM`. -/
def notim : ℕ := 0xFFFFFFFFFFFFFFFF

/-- The columns of `Bin` for one population. -/
structure PopBin where
  n : ℕ := 0
  sum : ℕ := 0
  max : ℕ := 0
  min : ℕ := nomin
  qlenSum : ℕ := 0
  qlenMax : ℕ := 0
  qlenMin : ℕ := nomin
  allN : ℕ := 0
  allPktN : ℕ := 0
  idxSum : ℕ := 0
  idxMax : ℕ := 0
  pktSpanSum : ℕ := 0
  chanOtherN : ℕ := 0
  iaN : ℕ := 0
  iaSum : ℕ := 0
  iaSumsq : ℕ := 0
  pktClosedN : ℕ := 0
  batchSum : ℕ := 0
  batchSumsq : ℕ := 0

structure Bin where
  key : ℕ
  of : Pop → PopBin

def Bin.empty (key : ℕ) : Bin := ⟨key, fun _ => {}⟩

def Bin.update (b : Bin) (pop : Pop) (f : PopBin → PopBin) : Bin :=
  { b with of := Function.update b.of pop (f (b.of pop)) }

/-- What is kept of the open packet of a population; `last_seq` is `NOPKT` if there is none. -/
structure PopState where
  lastSeq : Option UInt32 := none
  curMsgN : ℕ := 0
  curIdxMax : ℕ := 0
  lastArr : ℕ := notim

/-! ### One payload -/

/-- The last packet is closed, into the bin that is current. -/
def PopBin.close (b : PopBin) (st : PopState) (lastSeq : UInt32) (pl : DataPayLoad) : PopBin :=
  let t0 := pl.hndlTimEpoch.toNat
  let span := st.curIdxMax + 1
  let bs := st.curMsgN
  let b := { b with
    pktSpanSum := b.pktSpanSum + span
    pktClosedN := b.pktClosedN + 1
    batchSum := b.batchSum + bs
    batchSumsq := b.batchSumsq + bs * bs }
  let b :=
    if t0 ≠ 0 ∧ st.lastArr ≠ notim ∧ st.lastArr ≤ t0 then
      let gap := t0 - st.lastArr
      let gapUs := gap / 1000
      { b with
        iaN := b.iaN + 1
        iaSum := b.iaSum + gap
        iaSumsq := b.iaSumsq + gapUs * gapUs }
    else b
  let step : ℤ := (pl.pktSeqNum.toNat : ℤ) - lastSeq.toNat
  if step ≠ 1 then
    { b with chanOtherN := b.chanOtherN + if 1 < step then (step - 1).toNat else 1 }
  else b

/-- The packet boundary. -/
def PopBin.boundary (b : PopBin) (st : PopState) (pl : DataPayLoad) : PopBin :=
  match st.lastSeq with
  | none => { b with allPktN := b.allPktN + 1 }
  | some lastSeq =>
      if lastSeq ≠ pl.pktSeqNum then
        let b := b.close st lastSeq pl
        { b with allPktN := b.allPktN + 1 }
      else b

/-- `record`. -/
def PopBin.record (b : PopBin) (ns : ℕ) : PopBin :=
  let ns32 := if 0xFFFFFFFF < ns then 0xFFFFFFFF else ns
  { b with
    n := b.n + 1
    sum := b.sum + ns
    max := if b.max < ns32 then ns32 else b.max
    min := if ns32 < b.min then ns32 else b.min }

/-- What is kept of a payload that is not rejected. -/
def PopBin.sampled (b : PopBin) (pl : DataPayLoad) : PopBin :=
  let idx := pl.pktEntryIdx.toNat
  let q := pl.ingressQlen.toNat
  { b with
    idxSum := b.idxSum + idx
    idxMax := if b.idxMax < idx then idx else b.idxMax
    qlenSum := b.qlenSum + q
    qlenMax := if b.qlenMax < q then q else b.qlenMax
    qlenMin := if q < b.qlenMin then q else b.qlenMin }

/-- `sample`, what it does to the bin. -/
def PopBin.sample (b : PopBin) (st : PopState) (pl : DataPayLoad) : PopBin :=
  let t0 := pl.hndlTimEpoch.toNat
  let t1 := pl.publishTs.toNat
  let b := { b with allN := b.allN + 1 }
  let b := b.boundary st pl
  if t1 = 0 then b
  else if t0 = 0 then b
  else if t1 < t0 then b
  else (b.record (t1 - t0)).sampled pl

/-- `sample`, what it does to the open packet. -/
def PopState.sample (st : PopState) (pl : DataPayLoad) : PopState :=
  let t0 := pl.hndlTimEpoch.toNat
  let idx := pl.pktEntryIdx.toNat
  if st.lastSeq ≠ some pl.pktSeqNum then
    let lastArr := if st.lastSeq ≠ none ∧ t0 ≠ 0 then t0 else st.lastArr
    { lastSeq := some pl.pktSeqNum
      curMsgN := 1
      lastArr := if lastArr = notim ∧ t0 ≠ 0 then t0 else lastArr
      curIdxMax := idx }
  else
    { st with
      curMsgN := st.curMsgN + 1
      curIdxMax := if st.curIdxMax < idx then idx else st.curIdxMax }

/-! ### The probe -/

/-- A row of the CSV file: a bin, and whether the flush ends with it. -/
structure Row where
  bin : Bin
  flush : Bool

/-- What is printed of a population: the smallest of none is zero. -/
def PopBin.printed (b : PopBin) : PopBin :=
  { b with
    min := if b.n = 0 then 0 else b.min
    qlenMin := if b.qlenMin = nomin then 0 else b.qlenMin }

def Bin.printed (b : Bin) : Bin := { b with of := fun p => (b.of p).printed }

/-- The rows of a flush. -/
def rowsOf : List Bin → List Row
  | [] => []
  | [b] => [⟨b.printed, true⟩]
  | b :: bins => ⟨b.printed, false⟩ :: rowsOf bins

/-- The arguments of the constructor, and whether a file is given and opens. -/
structure Cfg where
  binMs : ℕ
  binMs_pos : 0 < binMs
  maxBins : ℕ
  csvOpens : Bool

/-- The defaults of the constructor, with a file that opens. -/
def Cfg.standard : Cfg := ⟨100, Nat.succ_pos 99, 300000, true⟩

def Cfg.binNs (cfg : Cfg) : ℕ := cfg.binMs * 1000000

structure Probe where
  bins : List Bin
  flushedUpto : ℕ
  of : Pop → PopState

def Probe.initial : Probe := ⟨[], 0, fun _ => {}⟩

/-- The bins, and how many of them are written. -/
def Probe.buffer (s : Probe) : Buffer Bin := ⟨s.bins, s.flushedUpto⟩

section Handlers

variable (cfg : Cfg)

/-- `flush_csv`. -/
def Probe.flushCsv (s : Probe) (final : Bool) : Probe × List Row :=
  if s.bins = [] then (s, [])
  else
    let last := if final then s.bins.length else s.bins.length - 1
    if last ≤ s.flushedUpto ∨ cfg.csvOpens = false then (s, [])
    else ({ s with flushedUpto := last }, rowsOf (s.buffer.unwritten last))

/-- The bins before `flushed_upto` are erased. -/
def Probe.erase (s : Probe) : Probe :=
  { s with bins := s.bins.drop s.flushedUpto, flushedUpto := 0 }

/-- `key`. -/
def Cfg.key (ts : ℕ) : ℕ := ts - ts % cfg.binNs

/-- The grid goes on by some bins. -/
def Probe.extend (s : Probe) (last gaps : ℕ) : Probe :=
  { s with bins := s.bins ++ (WriteBehind.following cfg.binNs last gaps).map Bin.empty }

/-- `bin_for`: the bin is then the last. -/
def Probe.binFor (s : Probe) (ts : ℕ) : Probe × List Row :=
  let key := cfg.key ts
  match s.bins.getLast? with
  | none => ({ s with bins := [.empty key] }, [])
  | some back =>
      let last := back.key
      -- the same bin, or a clock that went back
      if key ≤ last then (s, [])
      else
        let gaps := (key - last) / cfg.binNs
        if cfg.maxBins < s.bins.length + gaps then
          let (s, rows) := s.flushCsv cfg false
          let s := s.erase
          if cfg.maxBins < s.bins.length + gaps then
            ({ s with bins := [.empty key], flushedUpto := 0 }, rows)
          else (s.extend cfg last gaps, rows)
        else (s.extend cfg last gaps, [])

/-- A payload in the last bin. -/
def Probe.fill (s : Probe) (pl : DataPayLoad) (pop : Pop) : Probe :=
  let st := s.of pop
  { s with
    bins := s.bins.modifyLast fun b => b.update pop fun b => b.sample st pl
    of := Function.update s.of pop (st.sample pl) }

/-- `sample`. -/
def Probe.sample (s : Probe) (pl : Option DataPayLoad) (pop : Pop) (t2 : UInt64) :
    Probe × List Row :=
  match pl with
  | none => (s, [])
  | some pl =>
      let (s, rows) := s.binFor cfg t2.toNat
      (s.fill pl pop, rows)

/-- Messages; `epoch` is the time that is read at the arrival of one. -/
inductive Event where
  | endOfBurst (payload : Option DataPayLoad) (epoch : UInt64)
  | tradeNotify (payload : Option DataPayLoad) (epoch : UInt64)
  | timeout

/-- `eob_handler`, `trade_handler` and `timeout_handler`. -/
def step (s : Probe) : Event → Option (Probe × List Row)
  | .endOfBurst payload epoch => some (s.sample cfg payload .book epoch)
  | .tradeNotify payload epoch => some (s.sample cfg payload .trade epoch)
  | .timeout => some (s.flushCsv cfg false)

end Handlers

end KasparHft.LatencyProbe
