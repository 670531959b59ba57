import UniBPF.Theory.HeaderChecksum

/-!
# The Transport Checksum after a Rewrite

The checksum of TCP and UDP covers the ports, and the addresses through the
pseudo header. The translator changes all of these and leaves the checksum as
it is: `apply_rewrite` writes the header checksum, and nothing else is
computed anew. A segment therefore verifies after a rewrite only if what was
put in adds up to what was taken out (`segment_checksum_iff`), which for two
addresses and two ports is a coincidence.

With options in the header the ports are written into these, and the segment
itself does not change. The addresses still do.

## Main definitions

* `addrWords`: The two words of an address.
* `SegmentKept`: A rule puts in what it takes out.

## Theorems

* `drop_rewrittenBy`: What a rule leaves behind the header.
* `segmentLength_rewrittenBy`: The segment is as long as before.
* `transportVerifies_iff`: The transport checksum modulo `65535`.
* `segment_checksum_iff`: When a segment verifies after the program.
-/

namespace UniBPF

open LittleEndian OnesComplement

/-- The sum of the two words of an address. -/
def addrWords (a : UInt32) : Nat :=
  wordSum (toLE 4 a.toNat)

section Rewritten

variable (p : Bytes) (r : Rewrite) (h : 24 ≤ p.length)

include h

/-- Behind the ports nothing has changed. -/
theorem drop_rewrittenBy (n : Nat) (hn : 24 ≤ n) : (rewrittenBy p r).drop n = p.drop n := by
  have hpre := length_take_ten p (by omega)
  -- All that stands before the rest is twenty-four bytes long.
  have hfront : ∀ check src dst rest, addressed (p.take 10) check src dst
      (withPorts r.srcPort r.dstPort rest)
        = addressed (p.take 10) check src dst (withPorts r.srcPort r.dstPort []) ++ rest := by
    intro check src dst rest
    simp only [addressed, withPorts, List.append_assoc, List.append_nil]
  have hlen : ∀ check src dst, (addressed (p.take 10) check src dst
      (withPorts r.srcPort r.dstPort [])).length = 24 := by
    intro check src dst
    rw [length_addressed _ _ _ _ _ hpre, length_withPorts, List.length_nil]
  rw [rewrittenBy_eq p r h, hfront, List.drop_append, hlen,
    List.drop_of_length_le (by rw [hlen]; exact hn), List.nil_append, List.drop_drop]
  congr 1
  omega

/-- Behind the addresses are the ports of the rule. -/
theorem drop_rewrittenBy_twenty :
    (rewrittenBy p r).drop 20 = withPorts r.srcPort r.dstPort (p.drop 24) := by
  have hpre := length_take_ten p (by omega)
  have hlen : ∀ check src dst, (addressed (p.take 10) check src dst []).length = 20 := by
    intro check src dst
    rw [length_addressed _ _ _ _ _ hpre, List.length_nil]
  rw [rewrittenBy_eq p r h, addressed_append, List.drop_left' (hlen _ _ _)]

theorem u8_rewrittenBy (off : Nat) (hoff : off < 10) :
    Bytes.u8 (rewrittenBy p r) off = Bytes.u8 p off := by
  have hpre := length_take_ten p (by omega)
  have hself := u8_addressed (p.take 10) (Bytes.u16 p 10) (Bytes.u32 p 12) (Bytes.u32 p 16)
    (p.drop 20) hpre off hoff
  rw [addressed_self p (by omega)] at hself
  rw [rewrittenBy_eq p r h, u8_addressed _ _ _ _ _ hpre off hoff, hself]

theorem ihl_rewrittenBy : Bytes.ihl (rewrittenBy p r) = Bytes.ihl p := by
  rw [Bytes.ihl, u8_rewrittenBy p r h 0 (by decide)]
  rfl

/-- Fields before the checksum and behind the ports are as they were. -/
theorem be16_rewrittenBy (off : Nat) (hoff : off + 2 ≤ 10 ∨ 24 ≤ off) :
    Bytes.be16 (rewrittenBy p r) off = Bytes.be16 p off := by
  rcases hoff with hbefore | hbehind
  · have hpre := length_take_ten p (by omega)
    have hself : readLE p off 2 = readLE (p.take 10) off 2 := by
      conv => lhs; rw [← addressed_self p (by omega)]
      exact readLE_append_left _ _ _ _ (by omega)
    rw [Bytes.be16, Bytes.be16, Bytes.u16, Bytes.u16, rewrittenBy_eq p r h, addressed,
      readLE_append_left _ _ _ _ (by omega), hself]
  · rw [Bytes.be16, Bytes.be16, Bytes.u16, Bytes.u16, readLE, readLE,
      drop_rewrittenBy p r h off hbehind]

end Rewritten

section Verification

variable (p : Bytes) (h : Transport p)

include h

theorem Transport.length : 28 ≤ p.length := by
  have hihl := h.ipv4.ihl
  have hcomplete := h.complete
  have htcp : tcpHdrLen = 20 := rfl
  have hudp : udpHdrLen = 8 := rfl
  rcases h.segment with ⟨-, hlen⟩ | ⟨-, hlen, -⟩
  · omega
  · omega

/-- The words that are added up. -/
theorem transportVerifies_iff : TransportVerifies p ↔
    ((addrWords (Bytes.u32 p 12) + addrWords (Bytes.u32 p 16) + (Bytes.u8 p 9).toNat +
      segmentLength p + wordSum (segment p) : Nat) : ZMod 65535) = 0 := by
  have hlen := Transport.length p h
  -- The addresses are the eight bytes behind the checksum.
  have haddr : (p.drop 12).take 8
      = toLE 4 (Bytes.u32 p 12).toNat ++ toLE 4 (Bytes.u32 p 16).toNat := by
    rw [toLE_u32 p 12 (by omega), toLE_u32 p 16 (by omega)]
    have hsplit := List.take_add (l := p.drop 12) (i := 4) (j := 4)
    rw [List.drop_drop] at hsplit
    exact hsplit
  have hwords : wordSum ((p.drop 12).take 8)
      = addrWords (Bytes.u32 p 12) + addrWords (Bytes.u32 p 16) := by
    rw [haddr, wordSum_append _ _ (by rw [length_toLE]; decide), addrWords, addrWords]
  have hsum : (pseudoHeader p ++ words (segment p)).sum
      = addrWords (Bytes.u32 p 12) + addrWords (Bytes.u32 p 16) + (Bytes.u8 p 9).toNat +
        segmentLength p + wordSum (segment p) := by
    rw [pseudoHeader, List.sum_append, List.sum_append, ← hwords, List.sum_cons, List.sum_singleton,
      wordSum, wordSum]
    omega
  have hproto : (Bytes.u8 p 9).toNat ≠ 0 := by
    rcases h.segment with ⟨htcp, -⟩ | ⟨hudp, -, -⟩
    · rw [htcp]
      decide
    · rw [hudp]
      decide
  rw [TransportVerifies, verifies_iff, hsum]
  · intro w hw
    rcases List.mem_append.mp hw with hpseudo | hsegment
    · rcases List.mem_append.mp hpseudo with haddress | hrest
      · exact words_le _ w haddress
      · rcases List.mem_cons.mp hrest with hp | hl
        · have hbyte : (Bytes.u8 p 9).toNat < 256 := (Bytes.u8 p 9).toNat_lt
          omega
        -- A length is a 16-bit field, or what is left of one.
        · have hfield : ∀ off, Bytes.be16 p off < 65536 := fun off => UInt16.toNat_lt _
          have hl' := List.mem_singleton.mp hl
          unfold segmentLength at hl'
          have hfirst := hfield 2
          have hsecond := hfield (4 * Bytes.ihl p + 4)
          split at hl'
          · omega
          · omega
    · exact words_le _ w hsegment
  · rw [hsum]
    omega

end Verification

/-- A rule puts into the checksum what it takes out: the words of the new
    addresses add up to those of the old ones, together with the ports if
    these are where the rule is written. -/
def SegmentKept (p : Bytes) (r : Rewrite) : Prop :=
  addrWords (Bytes.u32 p 12) + addrWords (Bytes.u32 p 16) +
      (if Bytes.ihl p = 5 then Bytes.be16 p 20 + Bytes.be16 p 22 else 0) ≡
    addrWords r.srcIp + addrWords r.dstIp +
      (if Bytes.ihl p = 5 then r.srcPort.toNat + r.dstPort.toNat else 0) [MOD 65535]

section Segment

variable (p : Bytes) (r : Rewrite) (h : Transport p)

include h

theorem segmentLength_rewrittenBy : segmentLength (rewrittenBy p r) = segmentLength p := by
  have hlen := Transport.length p h
  have hihl := h.ipv4.ihl
  rw [segmentLength, segmentLength, u8_rewrittenBy p r (by omega) 9 (by decide),
    be16_rewrittenBy p r (by omega) 2 (by omega), ihl_rewrittenBy p r (by omega),
    be16_rewrittenBy p r (by omega) _ (by omega)]

/-- A segment behind options does not change, one without options has the
    ports of the rule. -/
theorem wordSum_segment :
    (wordSum (segment (rewrittenBy p r)) + if Bytes.ihl p = 5 then Bytes.be16 p 20 + Bytes.be16 p 22
        else 0 : Nat)
      ≡ wordSum (segment p) + (if Bytes.ihl p = 5 then r.srcPort.toNat + r.dstPort.toNat else 0)
        [MOD 65535] := by
  have hlen := Transport.length p h
  have hihl := h.ipv4.ihl
  have hcount : 4 ≤ segmentLength p := by
    have htcp : tcpHdrLen = 20 := rfl
    have hudp : udpHdrLen = 8 := rfl
    rcases h.segment with ⟨-, hl⟩ | ⟨-, hl, -⟩
    · omega
    · omega
  rw [segment, segment, segmentLength_rewrittenBy p r h, ihl_rewrittenBy p r (by omega)]
  by_cases hfive : Bytes.ihl p = 5
  · have hself := withPorts_self p 20 (by omega)
    have hsource : Bytes.be16 p 20 = (fromBe (Bytes.u16 p 20)).toNat := rfl
    have hdest : Bytes.be16 p 22 = (fromBe (Bytes.u16 p (20 + 2))).toNat := rfl
    rw [if_pos hfive, if_pos hfive, hfive, drop_rewrittenBy_twenty p r (by omega), ← hself,
      ← ZMod.natCast_eq_natCast_iff]
    simp only [Nat.cast_add, wordSum_take_withPorts _ _ _ _ hcount, hsource, hdest]
    ring
  · rw [if_neg hfive, if_neg hfive, drop_rewrittenBy p r (by omega) _ (by omega)]

theorem transport_rewrittenBy : Transport (rewrittenBy p r) := by
  have hlen := Transport.length p h
  have hihl := h.ipv4.ihl
  have hsame := (rewrite_fields p r (by omega)).length
  have hversion : Bytes.version (rewrittenBy p r) = 4 := by
    rw [Bytes.version, u8_rewrittenBy p r (by omega) 0 (by decide)]
    exact h.ipv4.version
  have hlen' : (rewrittenBy p r).length = p.length := hsame
  refine ⟨⟨hversion, ?_, ?_⟩, ?_, ?_⟩
  · rw [ihl_rewrittenBy p r (by omega)]
    exact hihl
  · rw [ihl_rewrittenBy p r (by omega), hlen']
    exact h.ipv4.header
  · rw [ihl_rewrittenBy p r (by omega), segmentLength_rewrittenBy p r h, hlen']
    exact h.complete
  · rw [ihl_rewrittenBy p r (by omega), segmentLength_rewrittenBy p r h,
      u8_rewrittenBy p r (by omega) 9 (by decide), be16_rewrittenBy p r (by omega) _ (by omega)]
    exact h.segment

/-- A segment that verifies does so after a rewrite exactly when the rule
    puts in what it takes out. -/
theorem transportVerifies_rewrittenBy (hv : TransportVerifies p) :
    TransportVerifies (rewrittenBy p r) ↔ SegmentKept p r := by
  have hlen := Transport.length p h
  have hfields := rewrite_fields p r (by omega)
  have hsrc : Bytes.u32 (rewrittenBy p r) 12 = r.srcIp := hfields.srcIp
  have hdst : Bytes.u32 (rewrittenBy p r) 16 = r.dstIp := hfields.dstIp
  have hsegment := wordSum_segment p r h
  rw [transportVerifies_iff p h] at hv
  rw [transportVerifies_iff _ (transport_rewrittenBy p r h), hsrc, hdst,
    segmentLength_rewrittenBy p r h, u8_rewrittenBy p r (by omega) 9 (by decide), SegmentKept,
    ← ZMod.natCast_eq_natCast_iff]
  rw [← ZMod.natCast_eq_natCast_iff] at hsegment
  simp only [Nat.cast_add] at hv hsegment ⊢
  constructor
  · intro hnew
    linear_combination hv - hnew + hsegment
  · intro hkept
    linear_combination hv - hkept + hsegment

end Segment

/-- A segment that verifies does so after the program exactly when no rule is
    applied, or one that puts in what it takes out. -/
theorem segment_checksum_iff (m m' : NatMaps) (ctx : BpfContext) (p : Bytes) (output : UInt32)
    (hm : m.Sound) (hmain : natMain m ctx = some (m', p, output)) (h : Transport ctx.packet)
    (hv : TransportVerifies ctx.packet) :
    TransportVerifies p ↔ ∀ r, appliedRule m ctx = some r → SegmentKept ctx.packet r := by
  have hpacket := natMain_packet m ctx hm m' p output hmain
  cases hrule : appliedRule m ctx with
  | none =>
      rw [hrule] at hpacket
      rw [hpacket]
      refine ⟨?_, fun _ => hv⟩
      intro _ r hr
      exact absurd hr (by simp only [reduceCtorEq, not_false_eq_true])
  | some r =>
      rw [hrule] at hpacket
      rw [hpacket, transportVerifies_rewrittenBy ctx.packet r h hv]
      refine ⟨?_, fun hkept => hkept r rfl⟩
      intro hkept r' hr'
      rwa [← Option.some.inj hr']

instance (p : Bytes) (r : Rewrite) : Decidable (SegmentKept p r) :=
  inferInstanceAs (Decidable (_ = _))

/-- A question to 8.8.8.8:53 from 172.44.0.2:50001, with a checksum. -/
def luckyPacket : Bytes :=
  [0x45, 0, 0, 28, 0, 0, 0, 0, 64, 17, 0xbe, 0x93, 172, 44, 0, 2, 8, 8, 8, 8,
    0xc3, 0x51, 0, 53, 0, 8, 0x80, 0x19]

/-- The same from port 50000. -/
def checkedPacket : Bytes :=
  [0x45, 0, 0, 28, 0, 0, 0, 0, 64, 17, 0xbe, 0x93, 172, 44, 0, 2, 8, 8, 8, 8,
    0xc3, 0x50, 0, 53, 0, 8, 0x80, 0x1a]

theorem transport_checkedPacket : Transport checkedPacket :=
  ⟨⟨by decide, by decide, by decide⟩, by decide, .inr ⟨by decide, by decide, by decide⟩⟩

/-- The first flow goes out as 172.44.0.3:50000. From 172.44.0.2:50001 that
    is one more and one less. -/
theorem segment_checksum_lucky : ∃ m p output,
    natMain NatMaps.new ⟨luckyPacket, 0⟩ = some (m, p, output) ∧ TransportVerifies p := by
  rcases classify_cases NatMaps.new ⟨luckyPacket, 0⟩ NatMaps.new_sound with
    ⟨m, p, output, hmain, -, -⟩
  have htransport : Transport luckyPacket :=
    ⟨⟨by decide, by decide, by decide⟩, by decide, .inr ⟨by decide, by decide, by decide⟩⟩
  refine ⟨m, p, output, hmain, ?_⟩
  refine (segment_checksum_iff NatMaps.new m ⟨luckyPacket, 0⟩ p output NatMaps.new_sound hmain
    htransport (by decide)).mpr ?_
  intro r hr
  have hrule : appliedRule NatMaps.new ⟨luckyPacket, 0⟩ = some (outgoingRewrite
      ⟨0x02002cac, 50001, 0x08080808, 53, ipProtoUdp⟩ 50000) := rfl
  rw [hrule, Option.some.injEq] at hr
  rw [← hr]
  decide

/-- From port 50000 the sum is off by one, and the checksum is wrong. -/
theorem segment_checksum_broken : Transport checkedPacket ∧ TransportVerifies checkedPacket ∧
    ∃ m p output, natMain NatMaps.new ⟨checkedPacket, 0⟩ = some (m, p, output) ∧
      ¬ TransportVerifies p := by
  have hv : TransportVerifies checkedPacket := by decide
  rcases classify_cases NatMaps.new ⟨checkedPacket, 0⟩ NatMaps.new_sound with
    ⟨m, p, output, hmain, -, -⟩
  refine ⟨transport_checkedPacket, hv, m, p, output, hmain, ?_⟩
  have hrule : appliedRule NatMaps.new ⟨checkedPacket, 0⟩ = some (outgoingRewrite
      ⟨0x02002cac, 50000, 0x08080808, 53, ipProtoUdp⟩ 50000) := rfl
  have hpacket := natMain_packet _ _ NatMaps.new_sound m p output hmain
  rw [hrule] at hpacket
  rw [hpacket, transportVerifies_rewrittenBy checkedPacket _ transport_checkedPacket hv]
  decide

end UniBPF
