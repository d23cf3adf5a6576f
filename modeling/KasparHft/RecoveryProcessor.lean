import KasparHft.MessageProcessor
import Mathlib.Data.Finset.Card
import Mathlib.Data.Finset.Insert
import Mathlib.Data.List.DropRight

/-!
# The recovery processor

`mdp3/act/RecoveryProcessor`, one call of `datarecovery_handler`: packets of the snapshot
channel are read from packet 1 of a cycle on, until as many books are complete as the
messages announce.  A gap in the packet numbers and a change of the announced number start
it again.

A packet is read as its messages here; one whose bytes do not walk, or with a template that
is not known, aborts (`none`).  Packet numbers are `uint32_t`, numbers below 2^32.
-/

namespace KasparHft.Mdp

/-! ### Snapshot packets -/

/-- An entry of `noMDEntries`. -/
structure MDEntry where
  mDDisplayQty : ℤ
  mantissa : ℤ
  exponent : ℤ
  mDEntryType : Char
  mDOrderPriority : ℕ
  orderID : ℕ
deriving DecidableEq, Repr

/-- What is read of `SnapshotFullRefreshOrderBook53`. -/
structure Snapshot where
  lastMsgSeqNumProcessed : ℕ
  lastMsgSeqNumProcessed_lt : lastMsgSeqNumProcessed < 2 ^ 32
  totNumReports : ℕ
  securityID : ℤ
  noChunks : ℕ
  currentChunk : ℕ
  transactTime : ℕ
  noMDEntries : List MDEntry
deriving DecidableEq, Repr

/-- A message of a snapshot packet, by its template. -/
inductive SnapshotMsg where
  | snapshotFullRefresh52
  | snapshotFullRefreshOrderBook53 (m : Snapshot)
  | adminHeartbeat12
  | unknown
deriving DecidableEq, Repr

/-- The bytes behind the packet number. -/
structure SnapshotPacket where
  sendingTime : ℕ
  msgs : List SnapshotMsg
deriving DecidableEq, Repr

/-! ### The handler -/

/-- `std::numeric_limits<uint32_t>::max()`. -/
def uint32Max : ℕ := 2 ^ 32 - 1

/-- The variables of `datarecovery_handler`. -/
structure Recovery where
  recoveredBooks : Finset ℤ := ∅
  currSeqNum : ℕ := 0
  foundFirstPacket : Bool := false
  lastSeqNum : ℕ := uint32Max
  numreports : ℕ := uint32Max
deriving DecidableEq

/-- What the handler does: it logs a packet that it goes on to process, hands a snapshot to
    the feed handler (an order at a time), has the recovery started again, and ends it. -/
inductive RecoveryOut where
  | processing (msgSeqNum : ℕ)
  | snapshotFullRefreshOrderBook (sendingTime : ℕ) (m : Snapshot)
  | dataRecoveryRestart
  | endDataRecovery (lastSeqNum : ℕ)
deriving DecidableEq, Repr

/-- The restarts: `last_seq_num` stays. -/
def Recovery.restart (r : Recovery) : Recovery := { r with
  currSeqNum := 0
  foundFirstPacket := false
  recoveredBooks := ∅
  numreports := uint32Max }

/-- A snapshot that is not the occasion of a restart. -/
def Recovery.snapshot (r : Recovery) (m : Snapshot) : Recovery := { r with
  numreports := if r.numreports = uint32Max then m.totNumReports else r.numreports
  lastSeqNum := min r.lastSeqNum m.lastMsgSeqNumProcessed
  recoveredBooks := if m.noChunks = m.currentChunk then insert m.securityID r.recoveredBooks
    else r.recoveredBooks }

/-- The walk over the messages of a packet. -/
def Recovery.walk (r : Recovery) (sendingTime : ℕ) :
    List SnapshotMsg → Option (Recovery × List RecoveryOut)
  | [] => some (r, [])
  | .snapshotFullRefresh52 :: ms => r.walk sendingTime ms
  | .snapshotFullRefreshOrderBook53 m :: ms =>
      if r.numreports ≠ uint32Max ∧ r.numreports ≠ m.totNumReports then
        -- the rest of the packet is not read
        some (r.restart, [.dataRecoveryRestart])
      else
        ((r.snapshot m).walk sendingTime ms).map fun w =>
          (w.1, .snapshotFullRefreshOrderBook sendingTime m :: w.2)
  | .adminHeartbeat12 :: ms => r.walk sendingTime ms
  | .unknown :: _ => none

/-- The handler between two packets, or after its reply. -/
inductive RecoveryPhase where
  | reading (r : Recovery)
  | done
deriving DecidableEq

/-- One packet.  After a restart no book is recovered and none is announced, so the condition
    of the loop holds there too. -/
def Recovery.packet (r : Recovery) (p : Packet SnapshotPacket) :
    Option (RecoveryPhase × List RecoveryOut) :=
  let r := if p.seqnum = 1 then { r with foundFirstPacket := true } else r
  if r.foundFirstPacket = false then some (.reading r, [])
  else if 1 < (p.seqnum + 2 ^ 32 - r.currSeqNum) % 2 ^ 32 ∧ p.seqnum ≠ 1 then
    some (.reading r.restart, [.dataRecoveryRestart])
  else
    let r := { r with currSeqNum := p.seqnum }
    (r.walk p.message.sendingTime p.message.msgs).map fun w =>
      if w.1.recoveredBooks.card < w.1.numreports then
        (.reading w.1, .processing p.seqnum :: w.2)
      else (.done, .processing p.seqnum :: w.2 ++ [.endDataRecovery w.1.lastSeqNum])

/-- The handler reads packets until it is done. -/
def RecoveryPhase.packet : RecoveryPhase → Packet SnapshotPacket →
    Option (RecoveryPhase × List RecoveryOut)
  | .reading r, p => r.packet p
  | .done, _ => some (.done, [])

/-! ### Histories -/

/-- What the handler did since its last restart. -/
def sinceRestart (out : List RecoveryOut) : List RecoveryOut :=
  out.rtakeWhile fun o => o ≠ .dataRecoveryRestart

/-- The packets processed. -/
def processed (out : List RecoveryOut) : List ℕ :=
  out.filterMap fun
    | .processing n => some n
    | _ => none

/-- The snapshots taken. -/
def snapshots (out : List RecoveryOut) : List Snapshot :=
  out.filterMap fun
    | .snapshotFullRefreshOrderBook _ m => some m
    | _ => none

/-- The securities whose last chunk was taken. -/
def completed (out : List RecoveryOut) : Finset ℤ :=
  ((snapshots out).filter fun m => m.noChunks = m.currentChunk).map Snapshot.securityID |>.toFinset

end KasparHft.Mdp
