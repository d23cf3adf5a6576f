import KasparHft.RecordWalk
import KasparHft.LittleEndian
import KasparHft.RecoveryProcessor

/-!
# The walks over a packet

`DataDecoder::mbo_data` and the two handlers of `RecoveryProcessor` walk over the messages of a
packet: a number of four bytes, a time of eight, and messages that begin with a header of ten,
`MsgSize` first.  What is kept here of a walk is which addresses it reads, counted from the start
of the packet, and how it ends; the memory goes on behind the packet.

The generated SBE codec is no part of the source.  What it reads of the message at a position, and
what becomes of the walk then, is a parameter.
-/

namespace KasparHft.Mdp

open RecordWalk (Visit Starts walk forall_range'_lt_iff)

/-! ### Packets in memory -/

def le16 (mem : ℕ → UInt8) (p : ℕ) : ℕ := LittleEndian.ofBytes ((List.range' p 2).map mem)

def le32 (mem : ℕ → UInt8) (p : ℕ) : ℕ := LittleEndian.ofBytes ((List.range' p 4).map mem)

def msgSize (mem : ℕ → UInt8) (p : ℕ) : ℕ := le16 mem p

def templateID (mem : ℕ → UInt8) (p : ℕ) : ℕ := le16 mem (p + 4)

def schemaID (mem : ℕ → UInt8) (p : ℕ) : ℕ := le16 mem (p + 6)

/-- `sbe_message_header_size`. -/
def sbeMessageHeaderSize : ℕ := 10

/-- Why a walk stops before the end of the packet. -/
inductive PacketFault where
  | zeroSize
  | badMsgSize
  | wrongSchema
  | unknownTemplate
  /-- A `runtime_error` of the codec while a message is decoded. -/
  | notDecoded
  /-- An exception of the codec that the walk does not catch. -/
  | escaped
  | restarted
deriving DecidableEq, Repr

/-- What decoding a message reads, and how it ends. -/
structure Decoded where
  reads : List ℕ
  ending : Except PacketFault Unit

/-! ### `mbo_data` -/

/-- The templates `decode_one` hands to the codec. -/
def decodedTemplates : List ℕ := [46, 48, 49, 51, 56, 55, 54, 57, 4, 50, 30, 47, 37, 39]

/-- Those whose `runtime_error` fails the packet; the others only log it. -/
def failingTemplates : List ℕ := [46, 48, 4, 47]

/-- `decode_one`.  The header is read before the template is looked at. -/
def decodeOne (mem : ℕ → UInt8) (codec : ℕ → Decoded) (p : ℕ) :
    List ℕ × Except PacketFault Unit :=
  let header := List.range' (p + 2) 8
  if schemaID mem p ≠ 1 then (header, .error .wrongSchema)
  else if templateID mem p ∈ decodedTemplates then
    (header ++ (codec p).reads,
      if (codec p).ending = .error .notDecoded ∧ templateID mem p ∉ failingTemplates then .ok ()
      else (codec p).ending)
  else (header, .ok ())

def mboVisit (mem : ℕ → UInt8) (codec : ℕ → Decoded) (p : ℕ) : Visit PacketFault :=
  if msgSize mem p = 0 then ⟨List.range' p 2, .error .zeroSize⟩
  else
    ⟨List.range' p 2 ++ (decodeOne mem codec p).1,
      (decodeOne mem codec p).2.map fun _ => p + msgSize mem p⟩

def mboData (mem : ℕ → UInt8) (len : ℕ) (codec : ℕ → Decoded) (fuel : ℕ) :
    Option (List ℕ × Except PacketFault Unit) :=
  (walk (mboVisit mem codec) len fuel 12).map fun r => (List.range' 0 12 ++ r.1, r.2)

/-! ### The recovery handlers -/

/-- `datarecovery_handler` goes on to the messages of a packet. -/
def Recovery.takes (r : Recovery) (msgSeqNum : ℕ) : Bool :=
  (r.foundFirstPacket || msgSeqNum == 1) &&
    !(decide (1 < (msgSeqNum + 2 ^ 32 - r.currSeqNum) % 2 ^ 32) && msgSeqNum != 1)

def dataRecoveryVisit (mem : ℕ → UInt8) (len : ℕ) (codec : ℕ → Decoded) (p : ℕ) :
    Visit PacketFault :=
  if msgSize mem p < sbeMessageHeaderSize ∨ len < p + msgSize mem p then
    ⟨List.range' p 2, .error .badMsgSize⟩
  else if templateID mem p = 52 ∨ templateID mem p = 12 then
    ⟨List.range' p 2 ++ List.range' (p + 2) 8, .ok (p + msgSize mem p)⟩
  else if templateID mem p = 53 then
    ⟨List.range' p 2 ++ List.range' (p + 2) 8 ++ (codec p).reads,
      (codec p).ending.map fun _ => p + msgSize mem p⟩
  else ⟨List.range' p 2 ++ List.range' (p + 2) 8, .error .unknownTemplate⟩

/-- One packet of `datarecovery_handler`. -/
def dataRecoveryPacket (r : Recovery) (mem : ℕ → UInt8) (len : ℕ) (codec : ℕ → Decoded)
    (fuel : ℕ) : Option (List ℕ × Except PacketFault Unit) :=
  if r.takes (le32 mem 0) then
    (walk (dataRecoveryVisit mem len codec) len fuel 12).map fun w =>
      (List.range' 0 12 ++ w.1, w.2)
  else some (List.range' 0 4, .ok ())

/-- The variables of `instrumentrecovery_handler` that decide how far a packet is read. -/
structure InstrumentRecovery where
  foundFirstPacket : Bool := false
  seqNumProcessed : Finset ℕ := ∅

def instrumentTemplates : List ℕ := [54, 55, 56, 57]

def instrumentRecoveryVisit (mem : ℕ → UInt8) (codec : ℕ → Decoded) (p : ℕ) :
    Visit PacketFault :=
  if msgSize mem p = 0 then ⟨List.range' p 2, .error .zeroSize⟩
  else if templateID mem p ∈ instrumentTemplates then
    ⟨List.range' p 2 ++ List.range' (p + 2) 8 ++ (codec p).reads,
      (codec p).ending.map fun _ => p + msgSize mem p⟩
  else ⟨List.range' p 2 ++ List.range' (p + 2) 8, .ok (p + msgSize mem p)⟩

/-- One packet of `instrumentrecovery_handler`. -/
def instrumentRecoveryPacket (s : InstrumentRecovery) (mem : ℕ → UInt8) (len : ℕ)
    (codec : ℕ → Decoded) (fuel : ℕ) : Option (List ℕ × Except PacketFault Unit) :=
  if le32 mem 0 = 1 ∧ s.foundFirstPacket then some (List.range' 0 4, .error .restarted)
  else if le32 mem 0 ≠ 1 ∧ s.foundFirstPacket = false then some (List.range' 0 4, .ok ())
  else if le32 mem 0 ∈ s.seqNumProcessed then some (List.range' 0 12, .ok ())
  else
    (walk (instrumentRecoveryVisit mem codec) len fuel 12).map fun w =>
      (List.range' 0 12 ++ w.1, w.2)

/-! ### Reads inside the packet -/

/-- A walk ends, and reads no byte at `len` or behind it. -/
def Within (len : ℕ) (w : Option (List ℕ × Except PacketFault Unit)) : Prop :=
  ∃ r, w = some r ∧ ∀ a ∈ r.1, a < len

/-- What the codec reads of a message lies in the packet. -/
def CodecWithin (len : ℕ) (codec : ℕ → Decoded) (p : ℕ) : Prop := ∀ a ∈ (codec p).reads, a < len

/-- A walk behind the first twelve bytes ends. -/
theorem walk_isSome {visit : ℕ → Visit PacketFault} {len : ℕ}
    (hforward : ∀ p q, (visit p).next = .ok q → p < q) :
    ((walk visit len (len + 1) 12).map fun r => (List.range' 0 12 ++ r.1, r.2)).isSome := by
  obtain ⟨r, hwalk⟩ := RecordWalk.walk_returns hforward (len + 1) 12 (Nat.succ_pos len)
    (Nat.lt_of_lt_of_le (Nat.lt_succ_self len) (Nat.le_add_right _ 12))
  rw [hwalk]
  rfl

/-- It stays in the packet when what is read at each of its messages does. -/
theorem within_walk_iff {visit : ℕ → Visit PacketFault} {len : ℕ}
    (hforward : ∀ p q, (visit p).next = .ok q → p < q) :
    Within len ((walk visit len (len + 1) 12).map fun r => (List.range' 0 12 ++ r.1, r.2)) ↔
      12 ≤ len ∧ ∀ p, Starts visit len 12 p → ∀ a ∈ (visit p).reads, a < len := by
  obtain ⟨r, hwalk⟩ := Option.isSome_iff_exists.mp
    ((Option.isSome_map ..).symm.trans (walk_isSome hforward))
  have hstart : (∀ a ∈ List.range' 0 12, a < len) ↔ 0 + 12 ≤ len := forall_range'_lt_iff (by decide)
  have hreads := RecordWalk.forall_reads_iff (P := fun a => a < len) hwalk
  rw [hwalk, ← hreads, ← hstart, ← List.forall_mem_append]
  constructor
  · rintro ⟨_, hr, hall⟩
    cases hr
    exact hall
  · intro hall
    exact ⟨_, rfl, hall⟩

/-- The header of a message, read in two parts. -/
theorem forall_header_lt_iff {p len : ℕ} :
    (∀ a ∈ List.range' p 2 ++ List.range' (p + 2) 8, a < len) ↔
      p + sbeMessageHeaderSize ≤ len := by
  rw [List.forall_mem_append, forall_range'_lt_iff (by decide), forall_range'_lt_iff (by decide)]
  unfold sbeMessageHeaderSize
  omega

/-- Where the size is not zero the header is read whole. -/
theorem headed_iff {p len size : ℕ} {Q : Prop} (hsize : size ≠ 0) :
    (p + 2 ≤ len ∧ (size ≠ 0 → p + sbeMessageHeaderSize ≤ len ∧ Q)) ↔
      p + sbeMessageHeaderSize ≤ len ∧ Q := by
  constructor
  · intro h
    exact h.2 hsize
  · intro h
    have hle := h.1
    unfold sbeMessageHeaderSize at hle
    exact ⟨by omega, fun _ => h⟩

/-- What `mbo_data` reads of a message lies in the packet: the size, the header unless the size
    is zero, and what the codec reads. -/
def MboFits (mem : ℕ → UInt8) (len : ℕ) (codec : ℕ → Decoded) (p : ℕ) : Prop :=
  p + 2 ≤ len ∧ (msgSize mem p ≠ 0 → p + sbeMessageHeaderSize ≤ len ∧
    (schemaID mem p = 1 → templateID mem p ∈ decodedTemplates → CodecWithin len codec p))

/-- What `datarecovery_handler` reads of a message: the header of one that passes the bound on
    its size is in the packet. -/
def DataRecoveryFits (mem : ℕ → UInt8) (len : ℕ) (codec : ℕ → Decoded) (p : ℕ) : Prop :=
  p + 2 ≤ len ∧ (sbeMessageHeaderSize ≤ msgSize mem p → p + msgSize mem p ≤ len →
    templateID mem p = 53 → CodecWithin len codec p)

def InstrumentRecoveryFits (mem : ℕ → UInt8) (len : ℕ) (codec : ℕ → Decoded) (p : ℕ) : Prop :=
  p + 2 ≤ len ∧ (msgSize mem p ≠ 0 → p + sbeMessageHeaderSize ≤ len ∧
    (templateID mem p ∈ instrumentTemplates → CodecWithin len codec p))

theorem next_eq_of_map {r : Except PacketFault Unit} {p q : ℕ}
    (hnext : (r.map fun _ => p) = .ok q) : q = p := by
  cases r with
  | error e => cases hnext
  | ok u => cases hnext; rfl

section Visits

variable {mem : ℕ → UInt8} {len : ℕ} {codec : ℕ → Decoded} {p : ℕ}

theorem mboVisit_forward (p q : ℕ) (hnext : (mboVisit mem codec p).next = .ok q) : p < q := by
  unfold mboVisit at hnext
  split at hnext
  · cases hnext
  next hsize =>
    have hq := next_eq_of_map hnext
    omega

theorem dataRecoveryVisit_forward (p q : ℕ)
    (hnext : (dataRecoveryVisit mem len codec p).next = .ok q) : p < q := by
  unfold dataRecoveryVisit at hnext
  split at hnext
  · cases hnext
  next hsize =>
    unfold sbeMessageHeaderSize at hsize
    split at hnext
    · cases hnext
      omega
    · split at hnext
      · have hq := next_eq_of_map hnext
        omega
      · cases hnext

theorem instrumentRecoveryVisit_forward (p q : ℕ)
    (hnext : (instrumentRecoveryVisit mem codec p).next = .ok q) : p < q := by
  unfold instrumentRecoveryVisit at hnext
  split at hnext
  · cases hnext
  next hsize =>
    split at hnext
    · have hq := next_eq_of_map hnext
      omega
    · cases hnext
      omega

theorem mboVisit_reads_iff :
    (∀ a ∈ (mboVisit mem codec p).reads, a < len) ↔ MboFits mem len codec p := by
  unfold MboFits mboVisit
  split
  next hsize =>
    rw [forall_range'_lt_iff (by decide)]
    exact (and_iff_left fun hne => absurd hsize hne).symm
  next hsize =>
    rw [headed_iff hsize]
    unfold decodeOne
    split
    next hschema =>
      rw [forall_header_lt_iff]
      exact (and_iff_left fun heq => absurd heq hschema).symm
    next hschema =>
      rw [not_not] at hschema
      split
      next htemplate =>
        rw [← List.append_assoc, List.forall_mem_append, forall_header_lt_iff]
        exact and_congr_right' ⟨fun hcodec _ _ => hcodec, fun h => h hschema htemplate⟩
      next htemplate =>
        rw [forall_header_lt_iff]
        exact (and_iff_left fun _ hin => absurd hin htemplate).symm

theorem dataRecoveryVisit_reads_iff :
    (∀ a ∈ (dataRecoveryVisit mem len codec p).reads, a < len) ↔
      DataRecoveryFits mem len codec p := by
  unfold DataRecoveryFits dataRecoveryVisit
  split
  next hbad =>
    rw [forall_range'_lt_iff (by decide)]
    exact (and_iff_left fun hlow hhigh => absurd hbad (by omega)).symm
  next hgood =>
    -- a size that passes the bound leaves room for the header
    rw [not_or] at hgood
    have hroom : p + sbeMessageHeaderSize ≤ len := by omega
    have htwo : p + 2 ≤ len := by
      unfold sbeMessageHeaderSize at hroom
      omega
    split
    next hplain =>
      rw [forall_header_lt_iff]
      exact iff_of_true hroom ⟨htwo, fun _ _ h53 => absurd hplain (by omega)⟩
    next =>
      split
      next h53 =>
        rw [List.forall_mem_append, forall_header_lt_iff]
        constructor
        · rintro ⟨-, hcodec⟩
          exact ⟨htwo, fun _ _ _ => hcodec⟩
        · intro h
          exact ⟨hroom, h.2 (by omega) (by omega) h53⟩
      next h53 =>
        rw [forall_header_lt_iff]
        exact iff_of_true hroom ⟨htwo, fun _ _ heq => absurd heq h53⟩

theorem instrumentRecoveryVisit_reads_iff :
    (∀ a ∈ (instrumentRecoveryVisit mem codec p).reads, a < len) ↔
      InstrumentRecoveryFits mem len codec p := by
  unfold InstrumentRecoveryFits instrumentRecoveryVisit
  split
  next hsize =>
    rw [forall_range'_lt_iff (by decide)]
    exact (and_iff_left fun hne => absurd hsize hne).symm
  next hsize =>
    rw [headed_iff hsize]
    split
    next htemplate =>
      rw [List.forall_mem_append, forall_header_lt_iff]
      exact and_congr_right' ⟨fun hcodec _ => hcodec, fun h => h htemplate⟩
    next htemplate =>
      rw [forall_header_lt_iff]
      exact (and_iff_left fun hin => absurd hin htemplate).symm

end Visits

/-! ### The three walks -/

theorem within_some_iff {len : ℕ} {r : List ℕ × Except PacketFault Unit} :
    Within len (some r) ↔ ∀ a ∈ r.1, a < len := by
  constructor
  · rintro ⟨_, hr, hall⟩
    cases hr
    exact hall
  · intro hall
    exact ⟨r, rfl, hall⟩

theorem mboData_isSome (mem : ℕ → UInt8) (len : ℕ) (codec : ℕ → Decoded) :
    (mboData mem len codec (len + 1)).isSome := walk_isSome mboVisit_forward

theorem dataRecoveryPacket_isSome (r : Recovery) (mem : ℕ → UInt8) (len : ℕ)
    (codec : ℕ → Decoded) : (dataRecoveryPacket r mem len codec (len + 1)).isSome := by
  unfold dataRecoveryPacket
  split
  · exact walk_isSome dataRecoveryVisit_forward
  · rfl

theorem instrumentRecoveryPacket_isSome (s : InstrumentRecovery) (mem : ℕ → UInt8) (len : ℕ)
    (codec : ℕ → Decoded) : (instrumentRecoveryPacket s mem len codec (len + 1)).isSome := by
  unfold instrumentRecoveryPacket
  split
  · rfl
  · split
    · rfl
    · split
      · rfl
      · exact walk_isSome instrumentRecoveryVisit_forward

theorem mboData_within_iff (mem : ℕ → UInt8) (len : ℕ) (codec : ℕ → Decoded) :
    Within len (mboData mem len codec (len + 1)) ↔
      12 ≤ len ∧ ∀ p, Starts (mboVisit mem codec) len 12 p → MboFits mem len codec p := by
  unfold mboData
  rw [within_walk_iff mboVisit_forward]
  simp only [mboVisit_reads_iff]

theorem dataRecoveryPacket_within_iff (r : Recovery) (mem : ℕ → UInt8) (len : ℕ)
    (codec : ℕ → Decoded) :
    Within len (dataRecoveryPacket r mem len codec (len + 1)) ↔
      4 ≤ len ∧ (r.takes (le32 mem 0) → 12 ≤ len ∧
        ∀ p, Starts (dataRecoveryVisit mem len codec) len 12 p →
          DataRecoveryFits mem len codec p) := by
  unfold dataRecoveryPacket
  split
  next htakes =>
    rw [within_walk_iff dataRecoveryVisit_forward]
    simp only [dataRecoveryVisit_reads_iff]
    constructor
    · intro h
      exact ⟨by omega, fun _ => h⟩
    · intro h
      exact h.2 htakes
  next htakes =>
    rw [within_some_iff, forall_range'_lt_iff (by decide)]
    exact (and_iff_left fun h => absurd h htakes).symm

/-- A packet that `instrumentrecovery_handler` leaves after its number. -/
def InstrumentRecovery.skips (s : InstrumentRecovery) (msgSeqNum : ℕ) : Prop :=
  msgSeqNum = 1 ∧ s.foundFirstPacket = true ∨ msgSeqNum ≠ 1 ∧ s.foundFirstPacket = false

theorem instrumentRecoveryPacket_within_iff (s : InstrumentRecovery) (mem : ℕ → UInt8) (len : ℕ)
    (codec : ℕ → Decoded) :
    Within len (instrumentRecoveryPacket s mem len codec (len + 1)) ↔
      4 ≤ len ∧ (¬ s.skips (le32 mem 0) → 12 ≤ len ∧ (le32 mem 0 ∉ s.seqNumProcessed →
        ∀ p, Starts (instrumentRecoveryVisit mem codec) len 12 p →
          InstrumentRecoveryFits mem len codec p)) := by
  unfold instrumentRecoveryPacket InstrumentRecovery.skips
  split
  next hagain =>
    rw [within_some_iff, forall_range'_lt_iff (by decide)]
    exact (and_iff_left fun hnot => absurd (Or.inl hagain) hnot).symm
  next hagain =>
    split
    next hbefore =>
      rw [within_some_iff, forall_range'_lt_iff (by decide)]
      exact (and_iff_left fun hnot => absurd (Or.inr hbefore) hnot).symm
    next hbefore =>
      have hread := not_or.mpr ⟨hagain, hbefore⟩
      split
      next hdone =>
        rw [within_some_iff, forall_range'_lt_iff (by decide)]
        constructor
        · intro hle
          exact ⟨by omega, fun _ => ⟨hle, fun hnew => absurd hdone hnew⟩⟩
        · intro h
          exact (h.2 hread).1
      next hnew =>
        rw [within_walk_iff instrumentRecoveryVisit_forward]
        simp only [instrumentRecoveryVisit_reads_iff]
        constructor
        · rintro ⟨hle, hall⟩
          exact ⟨by omega, fun _ => ⟨hle, fun _ => hall⟩⟩
        · intro h
          exact ⟨(h.2 hread).1, (h.2 hread).2 hnew⟩

/-- **The walks over a packet**: each of the three ends, and it stays in the packet exactly when
    the bytes before the messages are there and, at every message it comes to, what is read of
    that message is. -/
theorem packet_walks_within_iff (mem : ℕ → UInt8) (len : ℕ) (codec : ℕ → Decoded) (r : Recovery)
    (s : InstrumentRecovery) :
    ((mboData mem len codec (len + 1)).isSome ∧
      (dataRecoveryPacket r mem len codec (len + 1)).isSome ∧
      (instrumentRecoveryPacket s mem len codec (len + 1)).isSome) ∧
    (Within len (mboData mem len codec (len + 1)) ↔
        12 ≤ len ∧ ∀ p, Starts (mboVisit mem codec) len 12 p → MboFits mem len codec p) ∧
      (Within len (dataRecoveryPacket r mem len codec (len + 1)) ↔
        4 ≤ len ∧ (r.takes (le32 mem 0) → 12 ≤ len ∧
          ∀ p, Starts (dataRecoveryVisit mem len codec) len 12 p →
            DataRecoveryFits mem len codec p)) ∧
      (Within len (instrumentRecoveryPacket s mem len codec (len + 1)) ↔
        4 ≤ len ∧ (¬ s.skips (le32 mem 0) → 12 ≤ len ∧ (le32 mem 0 ∉ s.seqNumProcessed →
          ∀ p, Starts (instrumentRecoveryVisit mem codec) len 12 p →
            InstrumentRecoveryFits mem len codec p))) :=
  ⟨⟨mboData_isSome mem len codec, dataRecoveryPacket_isSome r mem len codec,
      instrumentRecoveryPacket_isSome s mem len codec⟩,
    mboData_within_iff mem len codec, dataRecoveryPacket_within_iff r mem len codec,
    instrumentRecoveryPacket_within_iff s mem len codec⟩

/-- One byte is left behind the time: its size field is read past the end. -/
theorem odd_byte_read_past_end :
    ¬ Within 13 (mboData (fun _ => 0) 13 (fun _ => ⟨[], .ok ()⟩) (13 + 1)) := by
  intro hwithin
  have hfits := ((mboData_within_iff (fun _ => 0) 13 _).mp hwithin).2 12 (.here (by decide))
  exact absurd hfits.1 (by decide)

end KasparHft.Mdp
