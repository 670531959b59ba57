import UniBPF.Core.Packet
import UniBPF.Lib.OnesComplement

/-!
# IPv4 Packets

What an IPv4 packet is, apart from what any of the programs makes of it: the
length of its header, where its transport header starts, and the two
checksums. The programs under `ebpf/src/bin` that look at ports are compared
with this; `Ipv4Hdr::ihl`, which `dns-filter` uses, is the `ihl` here.

The header has `ihl` words of four bytes, and the transport header comes
after that. Only a header without options is twenty bytes long.

The header checksum is chosen so that the words of the header add up to
`0xffff` in one's complement. That of TCP and UDP covers the segment, and a
pseudo header with both addresses, the protocol and the length of the
segment.

## Main definitions

* `Bytes.ihl`, `Bytes.be16`: Header fields.
* `Ipv4`: The packet starts with a complete IPv4 header.
* `HeaderVerifies`, `headerChecksum`: The header checksum, checked and
  computed.
* `segment`, `pseudoHeader`, `TransportVerifies`: The transport checksum.
* `Transport`: The packet carries a complete TCP or UDP segment.
-/

namespace UniBPF

open OnesComplement

/-- `Ipv4Hdr::ihl`: how long the header is, in words of four bytes. -/
def Bytes.ihl (p : Bytes) : Nat :=
  (Bytes.u8 p 0).toNat % 16

def Bytes.version (p : Bytes) : Nat :=
  (Bytes.u8 p 0).toNat / 16

/-- A 16-bit field in network byte order, as a number. -/
def Bytes.be16 (p : Bytes) (off : Nat) : Nat :=
  (fromBe (Bytes.u16 p off)).toNat

/-- The packet starts with an IPv4 header, with or without options. -/
structure Ipv4 (p : Bytes) : Prop where
  version : Bytes.version p = 4
  ihl : 5 ≤ Bytes.ihl p
  header : 4 * Bytes.ihl p ≤ p.length

def ipHeader (p : Bytes) : Bytes :=
  p.take (4 * Bytes.ihl p)

/-- The words of the header, the stored checksum among them, add up. -/
def HeaderVerifies (p : Bytes) : Prop :=
  Verifies (words (ipHeader p))

/-- The checksum of the header, computed from scratch: the complement of the
    sum with zero where the checksum is. -/
def headerChecksum (p : Bytes) : Nat :=
  65535 - sum 65535 (words (Bytes.setU16 (ipHeader p) 10 0))

/-- How long the segment is: TCP takes what is left of the packet, UDP says
    it in its header. -/
def segmentLength (p : Bytes) : Nat :=
  if Bytes.u8 p 9 = ipProtoTcp then Bytes.be16 p 2 - 4 * Bytes.ihl p
  else Bytes.be16 p (4 * Bytes.ihl p + 4)

/-- The transport header and the data. -/
def segment (p : Bytes) : Bytes :=
  (p.drop (4 * Bytes.ihl p)).take (segmentLength p)

/-- The words of the pseudo header. -/
def pseudoHeader (p : Bytes) : List Nat :=
  words ((p.drop 12).take 8) ++ [(Bytes.u8 p 9).toNat, segmentLength p]

/-- The checksum of the segment is right. -/
def TransportVerifies (p : Bytes) : Prop :=
  Verifies (pseudoHeader p ++ words (segment p))

/-- The packet carries a TCP segment, or a UDP segment that has a checksum. -/
structure Transport (p : Bytes) : Prop where
  ipv4 : Ipv4 p
  complete : 4 * Bytes.ihl p + segmentLength p ≤ p.length
  segment : (Bytes.u8 p 9 = ipProtoTcp ∧ tcpHdrLen ≤ segmentLength p) ∨
    (Bytes.u8 p 9 = ipProtoUdp ∧ udpHdrLen ≤ segmentLength p ∧
      Bytes.be16 p (4 * Bytes.ihl p + 6) ≠ 0)

instance (p : Bytes) : Decidable (HeaderVerifies p) :=
  inferInstanceAs (Decidable (Verifies _))

instance (p : Bytes) : Decidable (TransportVerifies p) :=
  inferInstanceAs (Decidable (Verifies _))

theorem fromBe_toNat (x : UInt16) :
    (fromBe x).toNat = 256 * (x.toNat % 256) + x.toNat / 256 := by
  have hx : x.toNat < 65536 := x.toNat_lt
  have hlow : x.toNat / 256 < 2 ^ 8 := by omega
  have hleft : (x <<< 8).toNat = (x.toNat % 256) <<< 8 := by
    rw [UInt16.toNat_shiftLeft, Nat.shiftLeft_eq, Nat.shiftLeft_eq]
    simp only [UInt16.reduceToNat, Nat.reduceMod, Nat.reducePow]
    omega
  have hright : (x >>> 8).toNat = x.toNat / 256 := by
    rw [UInt16.toNat_shiftRight, Nat.shiftRight_eq_div_pow]
    rfl
  rw [fromBe, UInt16.toNat_or, hleft, hright, ← Nat.shiftLeft_add_eq_or_of_lt hlow,
    Nat.shiftLeft_eq]
  omega

/-- Turning a field is multiplication by `256`, modulo `65535`. -/
theorem fromBe_cast (x : UInt16) : ((fromBe x).toNat : ZMod 65535) = 256 * x.toNat := by
  have hx : x.toNat < 65536 := x.toNat_lt
  have hsum : (fromBe x).toNat + 65535 * (x.toNat / 256) = 256 * x.toNat := by
    rw [fromBe_toNat]
    omega
  rw [cast_of_carry _ _ _ hsum, Nat.cast_mul]
  rfl

end UniBPF
