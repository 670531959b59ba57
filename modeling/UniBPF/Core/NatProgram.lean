import UniBPF.Core.Maps
import UniBPF.Core.Packet

/-!
# The Network Address Translator

`ebpf/src/bin/nat.rs`: a classifier that gives every flow from the inside a
port of its own on the outer address, and is meant to turn the replies back.

Its state is in two maps of the runtime. `CONNECTIONS` has the rewrite rule
of a flow under a 128-bit number made from the flow, and `NEXT_PORT` the next
port to hand out. A packet of a flow that has a rule is rewritten by it. Of
the others, those from the inside get a rule, those from the outside are let
through as they are.

The number is made by shifting the parts of the flow together, the source
port by 80 bits and the destination address by 64. The rule for the replies
is computed and not used; what is inserted a second time is the rule of the
flow itself.

Addresses are kept as they lie in the packet, ports as numbers. Arithmetic
wraps: the programs are built without overflow checks. How a `Rewrite` is laid
out is up to the compiler, which puts its wider fields first. An
outcome is `none` where a map helper has none.

## Main definitions

* `Connection`, `Rewrite`: Flows and rules.
* `connectionToU128`: The number of a flow.
* `NatMaps`: The maps of the program.
* `nextPort`, `applyRewrite`: The port allocator and the rewriting.
* `connectionOf`: The flow of a packet.
* `tryClassify`, `natMain`: The program.
-/

namespace UniBPF

open LittleEndian

/-- `PORT_START`. -/
def portStart : UInt32 := 50000

/-- `PORT_END`. -/
def portEnd : UInt32 := 65535

/-- `FOUTPUT`: towards the outside. -/
def fOutput : UInt32 := 0

/-- `ROUTPUT`: replies, to the inside. -/
def rOutput : UInt32 := 1

/-- `OUTPUTS`. -/
def natOutputs : UInt32 := 2

/-- `DEV_EX.ip`: 172.44.0.3 as it lies in a packet. -/
def devExIp : UInt32 := 0x03002cac

/-- `struct Connection`. -/
structure Connection where
  srcIp : UInt32
  srcPort : UInt16
  dstIp : UInt32
  dstPort : UInt16
  protocol : UInt8
deriving DecidableEq, Repr

/-- `struct Rewrite`. -/
structure Rewrite where
  srcIp : UInt32
  srcPort : UInt16
  dstIp : UInt32
  dstPort : UInt16
  output : UInt32
deriving DecidableEq, Repr

/-- `connection_to_u128`. -/
def connectionToU128 (c : Connection) : Nat :=
  c.srcIp.toNat <<< 96 ||| c.srcPort.toNat <<< 80 ||| c.dstIp.toNat <<< 64 |||
    c.dstPort.toNat <<< 48 ||| c.protocol.toNat <<< 32

/-- The bytes of a rule in the map. -/
def Rewrite.encode (r : Rewrite) : Bytes :=
  toLE 4 r.srcIp.toNat ++ (toLE 4 r.dstIp.toNat ++ (toLE 4 r.output.toNat ++
    (toLE 2 r.srcPort.toNat ++ toLE 2 r.dstPort.toNat)))

def Rewrite.decode (bs : Bytes) : Rewrite where
  srcIp := Bytes.u32 bs 0
  dstIp := Bytes.u32 bs 4
  output := Bytes.u32 bs 8
  srcPort := Bytes.u16 bs 12
  dstPort := Bytes.u16 bs 14

/-- `CONNECTIONS`, as it is declared. -/
def connectionsDef : MapDef := ⟨mapTypeHash, 16, 16, 1028, 0, 0, 0⟩

/-- `NEXT_PORT`, as it is declared. -/
def nextPortDef : MapDef := ⟨mapTypeArray, 4, 4, 1, 0, 0, 0⟩

/-- The maps of the program. -/
structure NatMaps where
  connections : BpfMap
  nextPort : BpfMap
deriving DecidableEq, Repr

/-- The key of a flow. -/
def Connection.key (c : Connection) : Bytes :=
  toLE 16 (connectionToU128 c)

/-- `CONNECTIONS.get_ptr`, with what is behind the pointer. -/
def getRewrite (connections : BpfMap) (c : Connection) : Option (Option Rewrite) :=
  (bpfMapLookupElem connections c.key).map fun value => value.map Rewrite.decode

/-- `CONNECTIONS.insert`. The helper reports no errors. -/
def insertRewrite (connections : BpfMap) (c : Connection) (r : Rewrite) : Option BpfMap :=
  bpfMapUpdateElem connections c.key r.encode

/-- The port after a port. -/
def advancePort (port : UInt32) : UInt32 :=
  (port - portStart + 1) % (portEnd - portStart) + portStart

/-- `next_port`: the port handed out and the map afterwards. The inner `none`
    is its error. -/
def nextPort (map : BpfMap) : Option (Option (UInt16 × BpfMap)) :=
  match bpfMapLookupElem map (toLE 4 0) with
  | none => none
  | some none => some none
  | some (some value) =>
    let port := if Bytes.u32 value 0 = 0 then portStart else Bytes.u32 value 0
    (writeThrough map (toLE 4 0) 0 (toLE 4 (advancePort port).toNat)).map fun map' =>
      some (port.toUInt16, map')

/-- The source and destination ports of the transport header. -/
def setPorts (p : Bytes) (r : Rewrite) : Bytes :=
  Bytes.setU16 (Bytes.setU16 p ipv4HdrLen (fromBe r.srcPort)) (ipv4HdrLen + 2) (fromBe r.dstPort)

/-- The addresses of the IP header, with its checksum. -/
def setAddresses (p : Bytes) (r : Rewrite) : Bytes :=
  let p := Bytes.setU16 p 10 (updateChecksumIp (Bytes.u16 p 10) (Bytes.u32 p 12) r.srcIp)
  let p := Bytes.setU32 p 12 r.srcIp
  let p := Bytes.setU16 p 10 (updateChecksumIp (Bytes.u16 p 10) (Bytes.u32 p 16) r.dstIp)
  Bytes.setU32 p 16 r.dstIp

/-- `apply_rewrite`: the packet afterwards, and whether it returned without an
    error. The addresses are written before the transport header is looked
    for. -/
def applyRewrite (ctx : BpfContext) (c : Connection) (r : Rewrite) : Bytes × Bool :=
  if !ctx.getPtr 0 ipv4HdrLen then (ctx.packet, false)
  else if c.protocol = ipProtoTcp then
    if ctx.getPtr ipv4HdrLen tcpHdrLen then (setPorts (setAddresses ctx.packet r) r, true)
    else (setAddresses ctx.packet r, false)
  else if c.protocol = ipProtoUdp then
    if ctx.getPtr ipv4HdrLen udpHdrLen then (setPorts (setAddresses ctx.packet r) r, true)
    else (setAddresses ctx.packet r, false)
  else (setAddresses ctx.packet r, false)

/-- The flow of a packet, from the headers as they lie. -/
def packetConnection (p : Bytes) (protocol : UInt8) : Connection where
  srcIp := Bytes.u32 p 12
  srcPort := fromBe (Bytes.u16 p ipv4HdrLen)
  dstIp := Bytes.u32 p 16
  dstPort := fromBe (Bytes.u16 p (ipv4HdrLen + 2))
  protocol := protocol

/-- The first half of `try_classify`: the flow of the packet, or its error. -/
def connectionOf (ctx : BpfContext) : Option Connection :=
  if !ctx.getPtr 0 ipv4HdrLen then none
  else
    let proto := Bytes.u8 ctx.packet 9
    if proto = ipProtoTcp then
      if ctx.getPtr ipv4HdrLen tcpHdrLen then some (packetConnection ctx.packet proto) else none
    else if proto = ipProtoUdp then
      if ctx.getPtr ipv4HdrLen udpHdrLen then some (packetConnection ctx.packet proto) else none
    else none

/-- The rule of a new flow. -/
def outgoingRewrite (c : Connection) (port : UInt16) : Rewrite where
  srcIp := devExIp
  srcPort := port
  dstIp := c.dstIp
  dstPort := c.dstPort
  output := fOutput

/-- What a run of the program leaves behind: the maps, the packet, and its
    result, `none` where that is an error. -/
structure NatOutcome where
  maps : NatMaps
  packet : Bytes
  result : Option UInt32

/-- A rule is applied, and then this is the output. -/
def rewritten (maps : NatMaps) (ctx : BpfContext) (c : Connection) (r : Rewrite)
    (output : UInt32) : NatOutcome :=
  let (packet, ok) := applyRewrite ctx c r
  ⟨maps, packet, if ok then some output else none⟩

/-- A flow from the inside that has no rule yet. -/
def classifyNew (maps : NatMaps) (ctx : BpfContext) (c : Connection) : Option NatOutcome :=
  match nextPort maps.nextPort with
  | none => none
  | some none => some ⟨maps, ctx.packet, none⟩
  | some (some (port, counter)) =>
    match insertRewrite maps.connections c (outgoingRewrite c port) with
    | none => none
    | some once =>
      -- The second insertion has the key and the rule of the first.
      match insertRewrite once c (outgoingRewrite c port) with
      | none => none
      | some twice =>
        some (rewritten ⟨twice, counter⟩ ctx c (outgoingRewrite c port) ctx.port)

/-- `try_classify`. -/
def tryClassify (maps : NatMaps) (ctx : BpfContext) : Option NatOutcome :=
  match connectionOf ctx with
  | none => some ⟨maps, ctx.packet, none⟩
  | some c =>
    match getRewrite maps.connections c with
    | none => none
    | some (some r) => some (rewritten maps ctx c r (r.output % natOutputs))
    | some none =>
      if ctx.port = 1 then some ⟨maps, ctx.packet, some fOutput⟩
      else if ctx.port = 0 then classifyNew maps ctx c
      else some ⟨maps, ctx.packet, none⟩

/-- `main`: the maps, the packet and the output. -/
def natMain (maps : NatMaps) (ctx : BpfContext) : Option (NatMaps × Bytes × UInt32) :=
  (tryClassify maps ctx).map fun o => (o.maps, o.packet, o.result.getD 0xffffffff)

/-- The maps of a program that has just been loaded. -/
def NatMaps.new : NatMaps where
  connections := ⟨connectionsDef, .hash []⟩
  nextPort := ⟨nextPortDef, .array (List.replicate 4 0)⟩

end UniBPF
