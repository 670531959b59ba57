import UniBPF.Core.Filters
import UniBPF.Theory.TransportChecksum

/-!
# Where the Ports Are

The ports of a TCP or UDP packet are behind the IP header, `4 * ihl` bytes
from its start. `dns-filter` computes this. `target-port`, `firewall` and the
translator look twenty bytes behind the start, always: in a packet with
options they take the first four bytes of the options for the ports, and the
translator writes its ports there.

So the programs see the ports exactly in packets without options
(`real_ports_iff`). A sender who puts an option into the header has
`target-port` decide by two bytes of the option, and gets a packet to port
12345 through.

## Main definitions

* `TransportHeader`: The packet has a complete TCP or UDP header.
* `RealPorts`: The programs see the ports, and write them.

## Theorems

* `portsBehind_transport`: What the programs take for the ports.
* `targetPort_drops_iff`: When `target-port` drops the right packets.
* `portsAt_rewrittenBy`: Where the translator writes.
* `dnsFilter_real`: `dns-filter` decides by the ports.
* `real_ports_iff`: When the others do.
-/

namespace UniBPF

open LittleEndian

/-- An IPv4 packet with a complete TCP or UDP header. -/
structure TransportHeader (p : Bytes) : Prop where
  ipv4 : Ipv4 p
  header : (Bytes.u8 p 9 = ipProtoTcp ∧ 4 * Bytes.ihl p + tcpHdrLen ≤ p.length) ∨
    (Bytes.u8 p 9 = ipProtoUdp ∧ 4 * Bytes.ihl p + udpHdrLen ≤ p.length)

/-- The Ethernet header of a frame with an IPv4 packet in it. -/
structure EthIpv4 (eth : Bytes) : Prop where
  length : eth.length = ethHdrLen
  etherType : Bytes.u16 eth 12 = etherTypeIpv4

/-- The ports of a packet. -/
def realPorts (p : Bytes) : UInt16 × UInt16 :=
  portsAt p (4 * Bytes.ihl p)

section Front

variable (front p : Bytes) (off : Nat)

theorem readLE_behind (w : Nat) : readLE (front ++ p) (front.length + off) w = readLE p off w := by
  rw [readLE_append_right _ _ _ _ (by omega), Nat.add_sub_cancel_left]

theorem portsAt_behind : portsAt (front ++ p) (front.length + off) = portsAt p off := by
  rw [portsAt, portsAt, Bytes.u16, Bytes.u16, Nat.add_assoc, readLE_behind, readLE_behind]
  rfl

/-- The headers of a frame with an IPv4 packet in it are found. -/
theorem frame_headers (eth : Bytes) (port : UInt32) (heth : EthIpv4 eth) (h : 20 ≤ p.length) :
    (BpfContext.mk (eth ++ p) port).getPtr 0 ethHdrLen = true ∧
      Bytes.u16 (eth ++ p) 12 = etherTypeIpv4 ∧
      (BpfContext.mk (eth ++ p) port).getPtr ethHdrLen ipv4HdrLen = true := by
  have hcount : (eth ++ p).length = ethHdrLen + p.length := by
    rw [List.length_append, heth.length]
  refine ⟨decide_eq_true ?_, ?_, decide_eq_true ?_⟩
  · simp only [hcount]
    omega
  · rw [← heth.etherType, Bytes.u16, Bytes.u16,
      readLE_append_left _ _ _ _ (by rw [heth.length]; decide)]
  · simp only [hcount, ipv4HdrLen]
    omega

theorem u8_behind : Bytes.u8 (front ++ p) (front.length + off) = Bytes.u8 p off := by
  rw [Bytes.u8, Bytes.u8, readLE_behind]

end Front

section Written

variable (p : Bytes) (r : Rewrite) (h : 24 ≤ p.length)

include h

/-- The translator writes its ports twenty bytes into the packet, and nothing
    behind them. -/
theorem portsAt_rewrittenBy_twenty : portsAt (rewrittenBy p r) 20 = (r.srcPort, r.dstPort) := by
  have hfields := rewrite_fields p r h
  have hsource : Bytes.u16 (rewrittenBy p r) 20 = fromBe r.srcPort := hfields.srcPort
  have hdest : Bytes.u16 (rewrittenBy p r) (20 + 2) = fromBe r.dstPort := hfields.dstPort
  rw [portsAt, hsource, hdest, fromBe_fromBe, fromBe_fromBe]

theorem portsAt_rewrittenBy_behind (off : Nat) (hoff : 24 ≤ off) :
    portsAt (rewrittenBy p r) off = portsAt p off := by
  rw [portsAt, portsAt, Bytes.u16, Bytes.u16, Bytes.u16, Bytes.u16, readLE, readLE, readLE, readLE,
    drop_rewrittenBy p r h off hoff, drop_rewrittenBy p r h (off + 2) (by omega)]

end Written

section Transport

variable (p : Bytes) (h : TransportHeader p)

include h

theorem TransportHeader.length : 28 ≤ p.length := by
  have hihl := h.ipv4.ihl
  have htcp : tcpHdrLen = 20 := rfl
  have hudp : udpHdrLen = 8 := rfl
  rcases h.header with ⟨-, hlen⟩ | ⟨-, hlen⟩
  · omega
  · omega

/-- What the programs take for the ports is twenty bytes into the packet. -/
theorem portsBehind_transport (front : Bytes) (port : UInt32) :
    portsBehind ⟨front ++ p, port⟩ front.length = some (portsAt p 20) := by
  have hihl := h.ipv4.ihl
  have hcount : (front ++ p).length = front.length + p.length := List.length_append
  have hproto := u8_behind front p 9
  have hports := portsAt_behind front p ipv4HdrLen
  unfold portsBehind
  simp only [hproto, hports]
  rcases h.header with ⟨htcp, hlen⟩ | ⟨hudp, hlen⟩
  · have hptr : (BpfContext.mk (front ++ p) port).getPtr (front.length + ipv4HdrLen) tcpHdrLen
        = true := by
      refine decide_eq_true ?_
      simp only [hcount, ipv4HdrLen, tcpHdrLen] at hlen ⊢
      omega
    rw [if_pos htcp, if_pos hptr]
    rfl
  · have hne : ¬ ipProtoUdp = ipProtoTcp := by decide
    have hptr : (BpfContext.mk (front ++ p) port).getPtr (front.length + ipv4HdrLen) udpHdrLen
        = true := by
      refine decide_eq_true ?_
      simp only [hcount, ipv4HdrLen, udpHdrLen] at hlen ⊢
      omega
    rw [hudp, if_neg hne, if_pos rfl, if_pos hptr]
    rfl

theorem targetPort_transport (port : UInt32) :
    targetPort ⟨p, port⟩ = some (portsAt p 20).2 := by
  have hlen := TransportHeader.length p h
  have hip : (BpfContext.mk p port).getPtr 0 ipv4HdrLen = true :=
    decide_eq_true (Nat.le_trans (by decide) hlen)
  have hports : portsBehind ⟨p, port⟩ 0 = some (portsAt p 20) := portsBehind_transport p h [] port
  simp only [targetPort, hip, hports, Bool.not_true, Bool.false_eq_true, if_false, Option.map_some]

theorem targetPortMain_drop (port : UInt32) :
    targetPortMain ⟨p, port⟩ = .drop ↔ (portsAt p 20).2 = 12345 := by
  rw [targetPortMain, targetPort_transport p h]
  by_cases hport : (portsAt p 20).2 = 12345
  · simp only [hport, if_true]
  · simp only [hport, if_false, reduceCtorEq]

/-- `target-port` drops the right packets exactly when the two places agree
    about the one port. -/
theorem targetPort_drops_iff (port : UInt32) :
    (targetPortMain ⟨p, port⟩ = .drop ↔ (realPorts p).2 = 12345) ↔
      ((portsAt p 20).2 = 12345 ↔ (realPorts p).2 = 12345) := by
  rw [targetPortMain_drop p h]

theorem firewallPorts_transport (eth : Bytes) (port : UInt32) (heth : EthIpv4 eth) :
    firewallPorts ⟨eth ++ p, port⟩ = some (portsAt p 20) := by
  have hlen := TransportHeader.length p h
  rcases frame_headers p eth port heth (by omega) with ⟨hframe, htype, hip⟩
  have hports := portsBehind_transport p h eth port
  rw [heth.length] at hports
  simp only [firewallPorts, hframe, hip, htype, hports, ne_eq, not_true_eq_false, Bool.not_true,
    Bool.false_eq_true, if_false]

theorem connectionOf_transport (port : UInt32) :
    connectionOf ⟨p, port⟩ = some (packetConnection p (Bytes.u8 p 9)) := by
  have hihl := h.ipv4.ihl
  refine connectionOf_of_headers p port ?_
  have htcp : tcpHdrLen = 20 := rfl
  have hudp : udpHdrLen = 8 := rfl
  rcases h.header with ⟨hproto, hlen⟩ | ⟨hproto, hlen⟩
  · exact .inl ⟨hproto, by omega⟩
  · exact .inr ⟨hproto, by omega⟩

theorem portsAt_rewrittenBy (r : Rewrite) :
    realPorts (rewrittenBy p r)
      = if Bytes.ihl p = 5 then (r.srcPort, r.dstPort) else realPorts p := by
  have hlen := TransportHeader.length p h
  have hihl := h.ipv4.ihl
  rw [realPorts, ihl_rewrittenBy p r (by omega)]
  by_cases hfive : Bytes.ihl p = 5
  · rw [if_pos hfive, hfive]
    exact portsAt_rewrittenBy_twenty p r (by omega)
  -- The header ends behind the four bytes that are written.
  · rw [if_neg hfive]
    exact portsAt_rewrittenBy_behind p r (by omega) _ (by omega)

/-- `dns-filter` looks at the destination port of a UDP packet, and at its
    data only if that is 53. -/
theorem dnsFilter_real (questions : Bytes → FilterResult) (eth : Bytes) (port : UInt32)
    (heth : EthIpv4 eth) (hudp : Bytes.u8 p 9 = ipProtoUdp) :
    dnsFilter questions ⟨eth ++ p, port⟩ = if (realPorts p).2 ≠ 53 then some .pass
      else (getSlice ⟨p, port⟩ (Bytes.be16 p (4 * Bytes.ihl p + 4))
        (4 * Bytes.ihl p + udpHdrLen)).map questions := by
  have hlen := TransportHeader.length p h
  have hihl := h.ipv4.ihl
  have hcount : (eth ++ p).length = ethHdrLen + p.length := by
    rw [List.length_append, heth.length]
  rcases frame_headers p eth port heth (by omega) with ⟨hframe, htype, hip⟩
  -- All that is read of the frame is read of the packet, fourteen bytes further on.
  have hfirst : (Bytes.u8 (eth ++ p) ethHdrLen).toNat % 16 * 4 = 4 * Bytes.ihl p := by
    have hbyte := u8_behind eth p 0
    rw [heth.length, Nat.add_zero] at hbyte
    rw [hbyte, Nat.mul_comm]
    rfl
  have hproto : Bytes.u8 (eth ++ p) (ethHdrLen + 9) = ipProtoUdp := by
    have hbyte := u8_behind eth p 9
    rw [heth.length] at hbyte
    rw [hbyte, hudp]
  have hptr : (BpfContext.mk (eth ++ p) port).getPtr (ethHdrLen + 4 * Bytes.ihl p) udpHdrLen
      = true := by
    refine decide_eq_true ?_
    simp only [hcount]
    -- A TCP header is ruled out by the protocol.
    rcases h.header with ⟨htcp, -⟩ | ⟨-, hfits⟩
    · rw [hudp] at htcp
      exact absurd htcp (by decide)
    · omega
  have hports : portsAt (eth ++ p) (ethHdrLen + 4 * Bytes.ihl p) = realPorts p := by
    have hbehind := portsAt_behind eth p (4 * Bytes.ihl p)
    rwa [heth.length] at hbehind
  have hfield : fromBe (Bytes.u16 (eth ++ p) (ethHdrLen + 4 * Bytes.ihl p + 4))
      = fromBe (Bytes.u16 p (4 * Bytes.ihl p + 4)) := by
    have hbehind := readLE_behind eth p (4 * Bytes.ihl p + 4) 2
    rw [heth.length, ← Nat.add_assoc] at hbehind
    rw [Bytes.u16, hbehind]
    rfl
  have hslice : ∀ len, getSlice ⟨eth ++ p, port⟩ len (ethHdrLen + 4 * Bytes.ihl p + udpHdrLen)
      = getSlice ⟨p, port⟩ len (4 * Bytes.ihl p + udpHdrLen) := by
    intro len
    have hsame :
        (BpfContext.mk (eth ++ p) port).getPtr (ethHdrLen + 4 * Bytes.ihl p + udpHdrLen) len
        = (BpfContext.mk p port).getPtr (4 * Bytes.ihl p + udpHdrLen) len := by
      simp only [BpfContext.getPtr, hcount, decide_eq_decide]
      omega
    have hdrop : (eth ++ p).drop (ethHdrLen + 4 * Bytes.ihl p + udpHdrLen)
        = p.drop (4 * Bytes.ihl p + udpHdrLen) := by
      rw [Nat.add_assoc, ← heth.length, List.drop_length_add_append]
    simp only [getSlice, hsame, hdrop]
  have hlong : ¬ 4 * Bytes.ihl p < ipv4HdrLen := by
    unfold ipv4HdrLen
    omega
  simp only [dnsFilter, hframe, hip, htype, hfirst, hproto, hptr, hports, hfield, hslice, hlong,
    ne_eq, not_true_eq_false, Bool.not_true, Bool.false_eq_true, if_false]
  rfl

end Transport

/-- The programs see the ports of a packet, and the translator writes them. -/
structure RealPorts (p : Bytes) : Prop where
  target : ∀ port, targetPort ⟨p, port⟩ = some (realPorts p).2
  dropped : ∀ port, targetPortMain ⟨p, port⟩ = .drop ↔ (realPorts p).2 = 12345
  firewall : ∀ eth port, EthIpv4 eth → firewallPorts ⟨eth ++ p, port⟩ = some (realPorts p)
  nat : ∀ port, ∃ c, connectionOf ⟨p, port⟩ = some c ∧ (c.srcPort, c.dstPort) = realPorts p
  rewritten : ∀ port c r, connectionOf ⟨p, port⟩ = some c →
    realPorts (applyRewrite ⟨p, port⟩ c r).1 = (r.srcPort, r.dstPort)

/-- The programs see the ports exactly in packets without options, and
    `dns-filter` sees them always. -/
theorem real_ports_iff (p : Bytes) (h : TransportHeader p) :
    (RealPorts p ↔ Bytes.ihl p = 5) ∧
      ∀ questions eth port, EthIpv4 eth → Bytes.u8 p 9 = ipProtoUdp →
        dnsFilter questions ⟨eth ++ p, port⟩ = if (realPorts p).2 ≠ 53 then some .pass
          else (getSlice ⟨p, port⟩ (Bytes.be16 p (4 * Bytes.ihl p + 4))
            (4 * Bytes.ihl p + udpHdrLen)).map questions := by
  refine ⟨⟨?_, ?_⟩, fun questions eth port => dnsFilter_real p h questions eth port⟩
  · intro hreal
    by_contra hne
    -- A rule whose source port is not the one the packet has.
    have hconn := connectionOf_transport p h 0
    have hports := hreal.rewritten 0 _ ⟨0, (realPorts p).1 + 1, 0, 0, 0⟩ hconn
    rw [applyRewrite_flow _ _ _ hconn] at hports
    have hkept := portsAt_rewrittenBy p h ⟨0, (realPorts p).1 + 1, 0, 0, 0⟩
    rw [rewrittenBy, hports, if_neg hne] at hkept
    have hsource := congrArg (UInt16.toNat ∘ Prod.fst) hkept
    simp only [Function.comp_apply, UInt16.toNat_add, UInt16.reduceToNat] at hsource
    have hlt : (realPorts p).1.toNat < 65536 := (realPorts p).1.toNat_lt
    omega
  · intro hfive
    have hplace : realPorts p = portsAt p 20 := by rw [realPorts, hfive]
    refine ⟨?_, ?_, ?_, ?_, ?_⟩
    · intro port
      rw [hplace]
      exact targetPort_transport p h port
    · intro port
      rw [hplace]
      exact targetPortMain_drop p h port
    · intro eth port heth
      rw [hplace]
      exact firewallPorts_transport p h eth port heth
    · intro port
      exact ⟨_, connectionOf_transport p h port, hplace.symm⟩
    · intro port c r hc
      rw [applyRewrite_flow _ _ _ hc]
      exact (portsAt_rewrittenBy p h r).trans (if_pos hfive)

/-- A packet without options. -/
theorem real_ports_plain : RealPorts plainPacket := by
  have h : TransportHeader plainPacket :=
    ⟨⟨by decide, by decide, by decide⟩, .inr ⟨by decide, by decide⟩⟩
  exact (real_ports_iff plainPacket h).1.mpr (by decide)

/-- A packet to port 12345 with four bytes of options. -/
def hiddenPacket : Bytes :=
  [0x46, 0, 0, 32, 0, 0, 0, 0, 64, 17, 0xbb, 0x8d, 172, 44, 0, 2, 8, 8, 8, 8, 1, 1, 1, 1,
    0xc3, 0x50, 0x30, 0x39, 0, 8, 0, 0]

/-- It gets past `target-port`, which takes its options for the ports. -/
theorem real_ports_hidden : TransportHeader hiddenPacket ∧ (realPorts hiddenPacket).2 = 12345 ∧
    targetPortMain ⟨hiddenPacket, 0⟩ = .pass ∧ ¬ RealPorts hiddenPacket := by
  have hpass : targetPortMain ⟨hiddenPacket, 0⟩ = .pass := by decide
  have hport : (realPorts hiddenPacket).2 = 12345 := by decide
  refine ⟨⟨⟨by decide, by decide, by decide⟩, .inr ⟨by decide, by decide⟩⟩, hport, hpass, ?_⟩
  intro hreal
  have hdrop := (hreal.dropped 0).mpr hport
  rw [hpass] at hdrop
  exact absurd hdrop (by decide)

end UniBPF
