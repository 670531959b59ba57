import UniBPF.Core.Ipv4

/-!
# Filter Programs

The filters of `ebpf/src/bin` that decide by ports: `target-port`, `firewall`
and `dns-filter`. Each reads the headers for itself.

`target-port` is handed packets without their Ethernet header, the other two
with it. `target-port` and `firewall` take the transport header to be twenty
bytes behind the start of the IP header, `dns-filter` computes where it is. A
header that does not fit into the packet is an error, and `main` turns it
into a result of its own: `target-port` and `dns-filter` abort, `firewall`
drops.

What `dns-filter` does with a message to port 53 is up to a library; it is a
parameter here.

## Main definitions

* `FilterResult`: What a filter answers.
* `targetPort`, `targetPortMain`: `target-port`.
* `firewallPorts`, `firewallMain`: `firewall`.
* `dnsFilter`, `dnsFilterMain`: `dns-filter`.
-/

namespace UniBPF

/-- `enum FilterResult`. -/
inductive FilterResult where
  | abort
  | drop
  | pass
deriving DecidableEq, Repr

/-- `EthHdr::LEN`. -/
def ethHdrLen : Nat := 14

/-- `EtherType::Ipv4`, as it lies in a frame. -/
def etherTypeIpv4 : UInt16 := 0x0008

/-- The ports of a transport header, as numbers. -/
def portsAt (p : Bytes) (off : Nat) : UInt16 × UInt16 :=
  (fromBe (Bytes.u16 p off), fromBe (Bytes.u16 p (off + 2)))

/-- The ports behind an IP header of twenty bytes that starts at `start`, if
    the packet has a complete TCP or UDP header there. -/
def portsBehind (ctx : BpfContext) (start : Nat) : Option (UInt16 × UInt16) :=
  let proto := Bytes.u8 ctx.packet (start + 9)
  if proto = ipProtoTcp then
    if ctx.getPtr (start + ipv4HdrLen) tcpHdrLen then some (portsAt ctx.packet (start + ipv4HdrLen))
    else none
  else if proto = ipProtoUdp then
    if ctx.getPtr (start + ipv4HdrLen) udpHdrLen then some (portsAt ctx.packet (start + ipv4HdrLen))
    else none
  else none

/-- `target-port`: the port it decides by. -/
def targetPort (ctx : BpfContext) : Option UInt16 :=
  if !ctx.getPtr 0 ipv4HdrLen then none
  else (portsBehind ctx 0).map Prod.snd

/-- `main` of `target-port`. -/
def targetPortMain (ctx : BpfContext) : FilterResult :=
  match targetPort ctx with
  | none => .abort
  | some port => if port = 12345 then .drop else .pass

/-- `firewall`: the ports it decides by. -/
def firewallPorts (ctx : BpfContext) : Option (UInt16 × UInt16) :=
  if !ctx.getPtr 0 ethHdrLen then none
  else if Bytes.u16 ctx.packet 12 ≠ etherTypeIpv4 then none
  else if !ctx.getPtr ethHdrLen ipv4HdrLen then none
  else portsBehind ctx ethHdrLen

/-- `main` of `firewall`. -/
def firewallMain (ctx : BpfContext) : FilterResult :=
  match firewallPorts ctx with
  | none => .drop
  | some (_, dstPort) => if dstPort = 1000 then .pass else .drop

/-- `get_slice`: the bytes, if they are in the packet and not too many. -/
def getSlice (ctx : BpfContext) (len offset : Nat) : Option Bytes :=
  if 50000 < len then none
  else if ctx.getPtr offset len then some ((ctx.packet.drop offset).take len)
  else none

/-- `try_filter` of `dns-filter`. `questions` is what it answers to the data
    of a message. -/
def dnsFilter (questions : Bytes → FilterResult) (ctx : BpfContext) : Option FilterResult :=
  if !ctx.getPtr 0 ethHdrLen then none
  else if Bytes.u16 ctx.packet 12 ≠ etherTypeIpv4 then some .pass
  else if !ctx.getPtr ethHdrLen ipv4HdrLen then none
  else
    let ipv4hdrLen := (Bytes.u8 ctx.packet ethHdrLen).toNat % 16 * 4
    if ipv4hdrLen < ipv4HdrLen then some .pass
    else if Bytes.u8 ctx.packet (ethHdrLen + 9) ≠ ipProtoUdp then some .pass
    else if !ctx.getPtr (ethHdrLen + ipv4hdrLen) udpHdrLen then none
    else if (portsAt ctx.packet (ethHdrLen + ipv4hdrLen)).2 ≠ 53 then some .pass
    else
      let dataLen := fromBe (Bytes.u16 ctx.packet (ethHdrLen + ipv4hdrLen + 4))
      (getSlice ctx dataLen.toNat (ethHdrLen + ipv4hdrLen + udpHdrLen)).map questions

/-- `main` of `dns-filter`. -/
def dnsFilterMain (questions : Bytes → FilterResult) (ctx : BpfContext) : FilterResult :=
  (dnsFilter questions ctx).getD .abort

end UniBPF
