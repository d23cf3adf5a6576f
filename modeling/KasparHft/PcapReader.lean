import KasparHft.LittleEndian
import KasparHft.RecordWalk
import Mathlib.Data.Nat.Notation

/-!
# The capture reader (`mcast_recv/act/PCAPReader.hpp`, `mcast_recv/trailer.hpp`)

`process_packet` finds the UDP payload of a captured frame: the Ethernet header with its VLAN tag,
the IPv4 header, the UDP header, and a hardware trailer behind the payload if one is configured.
The end of the payload is taken from the length of the capture.

Which addresses of the frame are read is kept beside the result; the memory goes on behind the
capture.  A frame is refused where the process aborts on it.
-/

namespace KasparHft.Pcap

/-- A number in network byte order. -/
def be16 (mem : ℕ → UInt8) (p : ℕ) : ℕ :=
  LittleEndian.ofBytes ((List.range' p 2).map mem).reverse

def be32 (mem : ℕ → UInt8) (p : ℕ) : ℕ :=
  LittleEndian.ofBytes ((List.range' p 4).map mem).reverse

/-- A number as `memcpy` leaves it on a little-endian machine. -/
def raw32 (mem : ℕ → UInt8) (p : ℕ) : ℕ := LittleEndian.ofBytes ((List.range' p 4).map mem)

/-! ### Trailers -/

inductive TrailerType where
  | none
  | metamako
deriving DecidableEq, Repr

structure TrailerSpec where
  type : TrailerType := .none
  size : ℕ := 0
  secondsOffset : ℕ := 0
  nanosOffset : ℕ := 0
deriving DecidableEq, Repr

def TrailerSpec.present (spec : TrailerSpec) : Bool := spec.type != .none

def TrailerSpec.metamako : TrailerSpec := ⟨.metamako, 20, 8, 12⟩

def trailerTimestampNs (mem : ℕ → UInt8) (trailer : ℕ) (spec : TrailerSpec) : ℕ :=
  be32 mem (trailer + spec.secondsOffset) * 1000000000 + be32 mem (trailer + spec.nanosOffset)

def trailerLooksValid (caplen frameLenWithoutTrailer trailerSecs referenceSecs : ℕ)
    (spec : TrailerSpec) : Bool :=
  if spec.present = false then false
  else if caplen ≠ frameLenWithoutTrailer + spec.size then false
  else
    let diff := if trailerSecs > referenceSecs then trailerSecs - referenceSecs
      else referenceSecs - trailerSecs
    decide (diff ≤ 5)

/-! ### Frames -/

/-- What the headers of a frame say. -/
structure Datagram where
  ipStart : ℕ
  ipHeaderLen : ℕ
  ipTotalLen : ℕ
  srcIp : ℕ
  dstIp : ℕ
  dstPort : ℕ
  /-- Where the UDP header starts. -/
  udpStart : ℕ
deriving DecidableEq, Repr

/-- Where the payload starts. -/
def Datagram.payload (d : Datagram) : ℕ := d.udpStart + 8

inductive Rejection where
  | refused
  | dropped
deriving DecidableEq, Repr

/-- The Ethernet header: what is read of it, the type and where the next header starts. -/
def ethernet (mem : ℕ → UInt8) (caplen : ℕ) : List ℕ × Except Rejection (ℕ × ℕ) :=
  if caplen < 14 then ([], .error .refused)
  else if be16 mem 12 = 0x8100 then
    if caplen < 18 then (List.range' 12 2, .error .refused)
    else (List.range' 12 2 ++ List.range' 16 2, .ok (be16 mem 16, 18))
  else (List.range' 12 2, .ok (be16 mem 12, 14))

/-- The IPv4 header at `ipStart` and the UDP header behind it. -/
def datagram (mem : ℕ → UInt8) (caplen ipStart : ℕ) : List ℕ × Except Rejection Datagram :=
  if caplen < ipStart + 20 then ([], .error .refused)
  else
    let ipHeaderLen := (mem ipStart).toNat % 16 * 4
    let udpStart := ipStart + ipHeaderLen
    let header := ipStart :: List.range' (ipStart + 2) 2 ++ List.range' (ipStart + 12) 4 ++
      List.range' (ipStart + 16) 4
    if caplen < udpStart + 8 then (header, .error .refused)
    else
      (header ++ List.range' (udpStart + 2) 2,
        .ok {
          ipStart := ipStart
          ipHeaderLen := ipHeaderLen
          ipTotalLen := be16 mem (ipStart + 2)
          srcIp := raw32 mem (ipStart + 12)
          dstIp := raw32 mem (ipStart + 16)
          dstPort := be16 mem (udpStart + 2)
          udpStart := udpStart })

/-- The headers of a frame.  A frame of IPv6 is dropped, one of another type refused. -/
def headers (mem : ℕ → UInt8) (caplen : ℕ) : List ℕ × Except Rejection Datagram :=
  match ethernet mem caplen with
  | (reads, .error e) => (reads, .error e)
  | (reads, .ok (ethertype, ipStart)) =>
      if ethertype = 0x0800 then
        (reads ++ (datagram mem caplen ipStart).1, (datagram mem caplen ipStart).2)
      else if ethertype = 0x86DD then (reads, .error .dropped)
      else (reads, .error .refused)

/-! ### The reader -/

structure PktFilter where
  dstIp : ℕ
  dstPort : ℕ
deriving DecidableEq, Repr

structure MessageBuffer where
  seqnum : ℕ
  message : List UInt8
  len : ℕ
  recvTs : ℕ
  hwTs : ℕ
  chan : Char
  srcIp : ℕ
  dstPort : ℕ
deriving DecidableEq, Repr

structure PcapReader where
  trailerSpec : TrailerSpec := {}
  pktFilter : List PktFilter := []
  trailerValidated : Bool := false
  filteredDropCount : ℕ := 0
  packetCount : ℕ := 0
  lastMdp3Seqnum : ℕ := 0
deriving DecidableEq, Repr

inductive Outcome where
  | refused
  | dropped
  | forwarded (m : MessageBuffer)
deriving DecidableEq, Repr

/-- `mcast_recv::msgsz`. -/
def msgsz : ℕ := 1500

def PcapReader.trailerSize (s : PcapReader) : ℕ :=
  if s.trailerSpec.present then s.trailerSpec.size else 0

/-- The allowlist; an empty one lets everything through, the address 0 any address. -/
def PcapReader.matches (s : PcapReader) (d : Datagram) : Bool :=
  s.pktFilter.isEmpty ||
    s.pktFilter.any fun f => f.dstPort == d.dstPort && (f.dstIp == 0 || f.dstIp == d.dstIp)

/-- Where the trailer starts. -/
def PcapReader.trailer (s : PcapReader) (caplen : ℕ) : ℕ := caplen - s.trailerSize

def PcapReader.hwTs (s : PcapReader) (mem : ℕ → UInt8) (caplen : ℕ) : ℕ :=
  if s.trailerSpec.present then trailerTimestampNs mem (s.trailer caplen) s.trailerSpec else 0

def PcapReader.trailerReads (s : PcapReader) (caplen : ℕ) : List ℕ :=
  if s.trailerSpec.present then
    List.range' (s.trailer caplen + s.trailerSpec.secondsOffset) 4 ++
      List.range' (s.trailer caplen + s.trailerSpec.nanosOffset) 4
  else []

/-- The check of the configured trailer, made until a frame passes it. -/
def PcapReader.trailerPasses (s : PcapReader) (mem : ℕ → UInt8) (caplen ts : ℕ)
    (d : Datagram) : Bool :=
  !s.trailerSpec.present || s.trailerValidated ||
    trailerLooksValid caplen (d.ipStart + d.ipTotalLen) (s.hwTs mem caplen / 1000000000)
      (ts / 1000000000) s.trailerSpec

def PcapReader.drop (s : PcapReader) : PcapReader :=
  { s with filteredDropCount := s.filteredDropCount + 1 }

/-- The part of `process_packet` behind the headers: what it reads, the reader it leaves, and what
    becomes of the frame. -/
def PcapReader.deliver (s : PcapReader) (mem : ℕ → UInt8) (caplen ts : ℕ) (d : Datagram) :
    List ℕ × PcapReader × Outcome :=
  if s.matches d = false then ([], s.drop, .dropped)
  else if caplen < d.payload + s.trailerSize then ([], s, .refused)
  else
    let payloadLen := caplen - d.payload - s.trailerSize
    if msgsz < payloadLen then ([], s, .refused)
    else if s.trailerPasses mem caplen ts d = false then (s.trailerReads caplen, s, .refused)
    else
      let mdp3Seqnum := raw32 mem d.payload
      (s.trailerReads caplen ++ List.range' d.payload 4 ++ List.range' d.payload payloadLen,
        { s with
          trailerValidated := s.trailerValidated || s.trailerSpec.present
          lastMdp3Seqnum := mdp3Seqnum
          packetCount := s.packetCount + 1 },
        .forwarded {
          seqnum := mdp3Seqnum
          message := (List.range' d.payload payloadLen).map mem
          len := payloadLen
          recvTs := ts
          hwTs := s.hwTs mem caplen
          chan := 'A'
          srcIp := d.srcIp
          dstPort := d.dstPort })

def PcapReader.processPacket (s : PcapReader) (mem : ℕ → UInt8) (caplen ts : ℕ) :
    List ℕ × PcapReader × Outcome :=
  match headers mem caplen with
  | (reads, .error .refused) => (reads, s, .refused)
  | (reads, .error .dropped) => (reads, s.drop, .dropped)
  | (reads, .ok d) => (reads ++ (s.deliver mem caplen ts d).1, (s.deliver mem caplen ts d).2)

/-! ### What is read and what is handed on -/

/-- Both lengths announce a payload of `n` bytes. -/
def Datagram.Announces (d : Datagram) (mem : ℕ → UInt8) (n : ℕ) : Prop :=
  be16 mem (d.udpStart + 4) = 8 + n ∧ d.ipTotalLen = d.ipHeaderLen + 8 + n

/-- A frame is read inside the capture, and what is handed on of it is the payload that its
    lengths announce. -/
def PcapReader.HandsOnPayload (s : PcapReader) (mem : ℕ → UInt8) (caplen ts : ℕ) : Prop :=
  (∀ a ∈ (s.processPacket mem caplen ts).1, a < caplen) ∧
    ∀ m, (s.processPacket mem caplen ts).2.2 = .forwarded m →
      ∃ d n, (headers mem caplen).2 = .ok d ∧ d.Announces mem n ∧
        m.message = (List.range' d.payload n).map mem

/-- The bytes between the headers and the trailer are a payload the reader takes. -/
def PcapReader.Takes (s : PcapReader) (caplen : ℕ) (d : Datagram) : Prop :=
  s.matches d = true ∧ d.payload + s.trailerSize ≤ caplen ∧
    caplen - d.payload - s.trailerSize ≤ msgsz

/-- The fields of the trailer are in the trailer; and unless the check of the trailer refuses the
    frame, four bytes follow its headers and all bytes up to the trailer are announced. -/
def PcapReader.Fits (s : PcapReader) (mem : ℕ → UInt8) (caplen ts : ℕ) (d : Datagram) : Prop :=
  (s.trailerSpec.present = true → s.trailerSpec.secondsOffset + 4 ≤ s.trailerSpec.size ∧
      s.trailerSpec.nanosOffset + 4 ≤ s.trailerSpec.size) ∧
    (s.trailerPasses mem caplen ts d = true →
      d.payload + 4 ≤ caplen ∧ d.Announces mem (caplen - d.payload - s.trailerSize))

section Frames

variable {s : PcapReader} {mem : ℕ → UInt8} {caplen ts : ℕ} {d : Datagram}

theorem ethernet_reads_lt : ∀ a ∈ (ethernet mem caplen).1, a < caplen := by
  unfold ethernet
  split
  · intro a ha
    cases ha
  · split
    · split
      · rw [RecordWalk.forall_range'_lt_iff (by decide)]
        omega
      · rw [List.forall_mem_append, RecordWalk.forall_range'_lt_iff (by decide),
          RecordWalk.forall_range'_lt_iff (by decide)]
        omega
    · rw [RecordWalk.forall_range'_lt_iff (by decide)]
      omega

theorem datagram_reads_lt (ipStart : ℕ) : ∀ a ∈ (datagram mem caplen ipStart).1, a < caplen := by
  unfold datagram
  split
  · intro a ha
    cases ha
  next hip =>
    have hheader : ∀ a ∈ ipStart :: List.range' (ipStart + 2) 2 ++ List.range' (ipStart + 12) 4 ++
        List.range' (ipStart + 16) 4, a < caplen := by
      simp only [List.forall_mem_append, List.forall_mem_cons, List.cons_append,
        RecordWalk.forall_range'_lt_iff (show 0 < 2 by decide),
        RecordWalk.forall_range'_lt_iff (show 0 < 4 by decide)]
      omega
    dsimp only
    split
    · exact hheader
    next hudp =>
      rw [List.forall_mem_append, RecordWalk.forall_range'_lt_iff (by decide)]
      exact ⟨hheader, by omega⟩

/-- The headers are read only as far as the capture goes. -/
theorem headers_reads_lt : ∀ a ∈ (headers mem caplen).1, a < caplen := by
  have hethernet : ∀ a ∈ (ethernet mem caplen).1, a < caplen := ethernet_reads_lt
  unfold headers
  split
  next heq => rw [heq] at hethernet; exact hethernet
  next heq =>
    rw [heq] at hethernet
    split
    · exact List.forall_mem_append.mpr ⟨hethernet, datagram_reads_lt _⟩
    · split
      · exact hethernet
      · exact hethernet

theorem trailerReads_lt_iff (hsize : s.trailerSize ≤ caplen) :
    (∀ a ∈ s.trailerReads caplen, a < caplen) ↔
      (s.trailerSpec.present = true → s.trailerSpec.secondsOffset + 4 ≤ s.trailerSpec.size ∧
        s.trailerSpec.nanosOffset + 4 ≤ s.trailerSpec.size) := by
  unfold PcapReader.trailerReads PcapReader.trailer
  unfold PcapReader.trailerSize at hsize ⊢
  rcases hpresent : s.trailerSpec.present with _ | _
  · simp
  · rw [hpresent, if_pos rfl] at hsize
    rw [if_pos rfl, if_pos rfl, List.forall_mem_append,
      RecordWalk.forall_range'_lt_iff (by decide), RecordWalk.forall_range'_lt_iff (by decide)]
    constructor
    · intro h _
      omega
    · intro h
      have := h rfl
      omega

/-- What becomes of a frame behind its headers. -/
theorem deliver_cases (s : PcapReader) (mem : ℕ → UInt8) (caplen ts : ℕ) (d : Datagram) :
    (¬ s.Takes caplen d ∧ (s.deliver mem caplen ts d).1 = [] ∧
        ∀ m, (s.deliver mem caplen ts d).2.2 ≠ .forwarded m) ∨
      (s.Takes caplen d ∧ s.trailerPasses mem caplen ts d = false ∧
        (s.deliver mem caplen ts d).1 = s.trailerReads caplen ∧
        ∀ m, (s.deliver mem caplen ts d).2.2 ≠ .forwarded m) ∨
      (s.Takes caplen d ∧ s.trailerPasses mem caplen ts d = true ∧
        (s.deliver mem caplen ts d).1 = s.trailerReads caplen ++ List.range' d.payload 4 ++
          List.range' d.payload (caplen - d.payload - s.trailerSize) ∧
        ∃ m, (s.deliver mem caplen ts d).2.2 = .forwarded m ∧ m.message =
          (List.range' d.payload (caplen - d.payload - s.trailerSize)).map mem) := by
  unfold PcapReader.deliver PcapReader.Takes
  split
  next hmatch =>
    refine Or.inl ⟨fun h => ?_, rfl, fun m hm => by cases hm⟩
    rw [hmatch] at h
    cases h.1
  next hmatch =>
    rw [Bool.not_eq_false] at hmatch
    split
    next hroom => exact Or.inl ⟨fun h => by omega, rfl, fun m hm => by cases hm⟩
    next hroom =>
      dsimp only
      split
      next hlarge => exact Or.inl ⟨fun h => by omega, rfl, fun m hm => by cases hm⟩
      next hsmall =>
        have htakes := And.intro hmatch (And.intro (Nat.not_lt.mp hroom) (Nat.not_lt.mp hsmall))
        split
        next hfail => exact Or.inr (Or.inl ⟨htakes, hfail, rfl, fun m hm => by cases hm⟩)
        next hpass =>
          rw [Bool.not_eq_false] at hpass
          exact Or.inr (Or.inr ⟨htakes, hpass, rfl, _, rfl, rfl⟩)

/-- What the reader reads of a frame, and when it hands one on. -/
theorem processPacket_of_headers {d : Datagram} (hd : (headers mem caplen).2 = .ok d) :
    s.processPacket mem caplen ts = ((headers mem caplen).1 ++ (s.deliver mem caplen ts d).1,
      (s.deliver mem caplen ts d).2) := by
  unfold PcapReader.processPacket
  rcases hheaders : headers mem caplen with ⟨reads, result⟩
  rw [hheaders] at hd
  cases hd
  rfl

theorem processPacket_of_rejected {e : Rejection} (he : (headers mem caplen).2 = .error e) :
    (s.processPacket mem caplen ts).1 = (headers mem caplen).1 ∧
      ∀ m, (s.processPacket mem caplen ts).2.2 ≠ .forwarded m := by
  unfold PcapReader.processPacket
  rcases hheaders : headers mem caplen with ⟨reads, result⟩
  rw [hheaders] at he
  cases he
  cases e with
  | refused => exact ⟨rfl, fun m hm => by cases hm⟩
  | dropped => exact ⟨rfl, fun m hm => by cases hm⟩

theorem map_range'_inj {p n k : ℕ}
    (heq : (List.range' p n).map mem = (List.range' p k).map mem) : n = k := by
  have hlength := congrArg List.length heq
  simpa using hlength

theorem handsOnPayload_iff_of_headers (hd : (headers mem caplen).2 = .ok d) :
    s.HandsOnPayload mem caplen ts ↔ (s.Takes caplen d → s.Fits mem caplen ts d) := by
  unfold PcapReader.HandsOnPayload PcapReader.Fits
  rw [processPacket_of_headers hd, List.forall_mem_append, and_iff_right headers_reads_lt]
  rcases deliver_cases s mem caplen ts d with ⟨hnot, hreads, hkept⟩ |
    ⟨htakes, hfail, hreads, hkept⟩ | ⟨htakes, hpass, hreads, m, hm, hmessage⟩
  · rw [hreads]
    refine iff_of_true ⟨fun a ha => (nomatch ha), fun m hm => absurd hm (hkept m)⟩ ?_
    exact fun h => absurd h hnot
  · have hsize : s.trailerSize ≤ caplen := (Nat.le_add_left _ _).trans htakes.2.1
    rw [hreads, trailerReads_lt_iff hsize]
    constructor
    · rintro ⟨htrailer, -⟩ -
      refine ⟨htrailer, fun hpass => ?_⟩
      rw [hfail] at hpass
      cases hpass
    · intro h
      exact ⟨(h htakes).1, fun m hm => absurd hm (hkept m)⟩
  · have hroom := htakes.2.1
    have hsize : s.trailerSize ≤ caplen := (Nat.le_add_left _ _).trans hroom
    have hpayload :
        ∀ a ∈ List.range' d.payload (caplen - d.payload - s.trailerSize), a < caplen := by
      intro a ha
      have := List.mem_range'_1.mp ha
      omega
    rw [hreads, List.forall_mem_append, List.forall_mem_append, trailerReads_lt_iff hsize,
      RecordWalk.forall_range'_lt_iff (by decide)]
    constructor
    · rintro ⟨⟨⟨htrailer, hseqnum⟩, -⟩, hexact⟩ -
      refine ⟨htrailer, fun _ => ⟨hseqnum, ?_⟩⟩
      obtain ⟨d', n, hd', hannounced, hsame⟩ := hexact m hm
      cases hd.symm.trans hd'
      rw [map_range'_inj (hmessage.symm.trans hsame)]
      exact hannounced
    · intro h
      obtain ⟨htrailer, hrest⟩ := h htakes
      obtain ⟨hseqnum, hannounced⟩ := hrest hpass
      refine ⟨⟨⟨htrailer, hseqnum⟩, hpayload⟩, fun m' hm' => ?_⟩
      cases hm.symm.trans hm'
      exact ⟨d, _, hd, hannounced, hmessage⟩

end Frames

/-- A frame of sixty bytes: four bytes of payload, then padding. -/
def paddedFrame : ℕ → UInt8
  | 12 => 0x08
  | 14 => 0x45
  | 17 => 32
  | 39 => 12
  | _ => 0

end KasparHft.Pcap
