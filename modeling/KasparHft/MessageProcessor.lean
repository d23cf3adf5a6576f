import KasparHft.Machine
import Mathlib.Algebra.Group.Nat.Defs
import Mathlib.Data.Int.Notation
import Mathlib.Data.Nat.Notation

/-!
# The message processor

`mdp3/act/MessageProcessor`: incremental packets of a channel arrive on two feeds, in any
order and more than once, are queued by sequence number and handed to the decoder in
order.  A gap is waited for a few times, then closed by a data recovery or, when recovery
is off, by resetting the expected number.

Sequence numbers are `uint32_t`, numbers below 2^32 here.  The decoder is an actor of its
own and a parameter: its state, its answer to a packet, and what the `GAP` command does to
it.  Timers and statistics are left out.
-/

namespace KasparHft.Mdp

/-- What the processor uses of `DecodeResult`. -/
structure DecodeResult where
  rc : Bool
  isChannelReset : Bool

/-- The decoder actor: its answer to `DecodePacket`, and `DecoderCmd::GAP`. -/
structure Decoder (δ Buf : Type) where
  decode : δ → Buf → δ × DecodeResult
  gap : δ → δ

/-- `message_buffer`: a packet and its sequence number. -/
structure Packet (Buf : Type) where
  seqnum : ℕ
  seqnum_lt : seqnum < 2 ^ 32
  message : Buf

theorem fin_lt_2_32 (sn : Fin (2 ^ 32)) : (sn : ℕ) < 2 ^ 32 := sn.isLt

/-- `EndDataRecovery`; its only sender fills it from a `uint32_t`. -/
structure EndDataRecovery where
  lastSeq : ℕ
  lastSeq_lt : lastSeq < 2 ^ 32

/-- The constructor's arguments; `recovery_processor` may be null. -/
structure Cfg where
  dorecovery : Bool
  recoveryonstart : Bool
  hasRecoveryProcessor : Bool

/-- `instr_recoveryonstart`, a constant of the source. -/
def instrRecoveryonstart : Bool := true

/-- `maxwaitcnt`. -/
def maxwaitcnt : ℤ := 3

/-- The members that change. -/
structure State (δ Buf : Type) where
  decoder : δ
  msgQ : List (Packet Buf) := []
  inDataRecovery : Bool := false
  inInstrRecovery : Bool := false
  qseqNum : ℕ := 0
  waitcnt : ℤ := 3
  stopq : Bool := false

/-- What the processor does, in order: a packet decoded or not, a recovery asked for, and
    the two other ways the sequence number moves, which the source logs. -/
inductive Out where
  | decoded (sn : ℕ)
  | failed (sn : ℕ)
  | gap
  | doDataRecovery
  | doInstrRecovery
  | recovered (current lastSeq : ℕ)
  | resetSn (current sn : ℕ)
deriving DecidableEq, Repr

/-- The messages of the processor. -/
inductive Event (Buf : Type) where
  | start
  | processQ (m : Packet Buf)
  | endDataRecovery (m : EndDataRecovery)
  | endInstrRecovery
  | startQ
  | stopQ

variable {δ Buf : Type}

/-! ### The queue -/

/-- `try_emplace` on the queue, which is ordered by sequence number: a number that is
    already there keeps its packet. -/
def emplace (m : Packet Buf) : List (Packet Buf) → List (Packet Buf)
  | [] => [m]
  | p :: ps =>
      if m.seqnum < p.seqnum then m :: p :: ps
      else if m.seqnum = p.seqnum then p :: ps
      else p :: emplace m ps

/-- `do_data_recovery`. -/
def State.doDataRecovery (cfg : Cfg) (s : State δ Buf) : Option (State δ Buf × List Out) :=
  if cfg.hasRecoveryProcessor then
    some ({ s with inDataRecovery := true, waitcnt := maxwaitcnt }, [.doDataRecovery])
  else none

/-- `do_instr_recovery`. -/
def State.doInstrRecovery (cfg : Cfg) (s : State δ Buf) : State δ Buf × List Out :=
  if cfg.hasRecoveryProcessor then
    ({ s with inInstrRecovery := true }, [.doInstrRecovery])
  else (s, [])

/-- The loop of `processq` over the queue. -/
def State.drain (cfg : Cfg) (dec : Decoder δ Buf) (s : State δ Buf) :
    List (Packet Buf) → Option (State δ Buf × List Out)
  | [] => some ({ s with msgQ := [] }, [])
  | p :: ps =>
      if p.seqnum ≤ s.qseqNum then s.drain cfg dec ps
      else if p.seqnum = (s.qseqNum + 1) % 2 ^ 32 ∨ s.qseqNum = 0 then
        let (d, r) := dec.decode s.decoder p.message
        if r.rc = false then
          -- the packet stays in the queue
          let s : State δ Buf := { s with decoder := dec.gap d, msgQ := p :: ps }
          (s.doDataRecovery cfg).map fun t => (t.1, .failed p.seqnum :: .gap :: t.2)
        else
          let s : State δ Buf := { s with
            decoder := d
            qseqNum := p.seqnum
            waitcnt := if s.waitcnt < maxwaitcnt then maxwaitcnt else s.waitcnt }
          (s.drain cfg dec ps).map fun t => (t.1, .decoded p.seqnum :: t.2)
      else if 0 < s.waitcnt - 1 then
        some ({ s with waitcnt := s.waitcnt - 1, msgQ := p :: ps }, [])
      else
        -- there is a gap and it is not the start
        let s := { s with waitcnt := s.waitcnt - 1, msgQ := p :: ps }
        if cfg.dorecovery then s.doDataRecovery cfg
        else
          some ({ s with qseqNum := p.seqnum - 1 }, [.resetSn s.qseqNum (p.seqnum - 1)])

/-- `processq`. -/
def State.processq (cfg : Cfg) (dec : Decoder δ Buf) (s : State δ Buf) :
    Option (State δ Buf × List Out) :=
  if s.inDataRecovery || s.inInstrRecovery then some (s, [])
  else s.drain cfg dec s.msgQ

/-! ### Handlers -/

/-- `start_handler`. -/
def State.startHandler (cfg : Cfg) (s : State δ Buf) : Option (State δ Buf × List Out) :=
  let (s, o) := if instrRecoveryonstart then s.doInstrRecovery cfg else (s, [])
  if cfg.recoveryonstart then (s.doDataRecovery cfg).map fun t => (t.1, o ++ t.2)
  else some (s, o)

/-- `processq_handler`. -/
def State.processqHandler (cfg : Cfg) (dec : Decoder δ Buf) (s : State δ Buf)
    (m : Packet Buf) : Option (State δ Buf × List Out) :=
  if m.seqnum ≤ s.qseqNum ∨ s.stopq then some (s, [])
  else { s with msgQ := emplace m s.msgQ }.processq cfg dec

/-- `enddatarecovery_handler`: the queue is processed before the flag is cleared. -/
def State.enddatarecoveryHandler (cfg : Cfg) (dec : Decoder δ Buf) (s : State δ Buf)
    (m : EndDataRecovery) : Option (State δ Buf × List Out) :=
  let (s, o) := if s.qseqNum < m.lastSeq then
      ({ s with qseqNum := m.lastSeq }, [.recovered s.qseqNum m.lastSeq])
    else (s, [])
  (s.processq cfg dec).map fun t => ({ t.1 with inDataRecovery := false }, o ++ t.2)

/-- `endinstrrecovery_handler`. -/
def State.endinstrrecoveryHandler (cfg : Cfg) (dec : Decoder δ Buf) (s : State δ Buf) :
    Option (State δ Buf × List Out) :=
  (s.processq cfg dec).map fun t => ({ t.1 with inInstrRecovery := false }, t.2)

/-- One message. -/
def step (cfg : Cfg) (dec : Decoder δ Buf) (s : State δ Buf) :
    Event Buf → Option (State δ Buf × List Out)
  | .start => s.startHandler cfg
  | .processQ m => s.processqHandler cfg dec m
  | .endDataRecovery m => s.enddatarecoveryHandler cfg dec m
  | .endInstrRecovery => s.endinstrrecoveryHandler cfg dec
  | .startQ => some ({ s with stopq := false }, [])
  | .stopQ => some ({ s with stopq := true }, [])

/-- The processor as it is built. -/
def State.new (d : δ) : State δ Buf :=
  { decoder := d }

end KasparHft.Mdp
