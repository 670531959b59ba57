import UniBPF.Core.Migration
import UniBPF.Core.NatProgram
import UniBPF.Core.RateLimiter
import UniBPF.Core.Rewriter
import UniBPF.Lib.Panics

/-!
# The Programs, with Their Panics

`ebpf/src/bin`, all of it. The panic handler of the programs is
`unreachable_unchecked`: the compiler may take it that no index is out of
range, that nothing is unwrapped that is not there and that nothing is divided
by zero. Here these are operations that can panic, and the programs that have
one are written with it: `stringmatcher` indexes, `dns-filter` unwraps, `nat`,
`round-robin` and `rate-limiter` divide. The others have nothing that panics
and are as they were. Arithmetic wraps, in both profiles of the crate.

`dns-filter` parses with a library. Its constructor and its iterator over the
questions are parameters (`DnsLibrary`); what the program does with their
results is here.

`Program.main` puts the programs together: what each one keeps in its maps,
how these are when it has been loaded, and one run on a packet.

## Main definitions

* `stringMatcher`, `stringMatcherMain`: `stringmatcher`.
* `DnsLibrary`, `dnsFilterData`, `dnsFilterRun`: `dns-filter`.
* `nextPortRun`, `natRun`, `rateLimiterRun`: `nat` and `rate-limiter`.
* `roundRobinRun`, `udpTcpClassifier`, `etherMirror`: Three programs more.
* `Program`, `Program.State`, `Program.Loaded`, `Program.main`: All of them.
-/

namespace UniBPF

open LittleEndian

/-- `match_word`: the bytes of `leetcode`. -/
def matchWord : Bytes :=
  [0x6c, 0x65, 0x65, 0x74, 0x63, 0x6f, 0x64, 0x65]

/-- The loop of `stringmatcher`, with `n` rounds left and at index `i`. An
    inner `none` is an error. -/
def matchLoop (ctx : BpfContext) : Nat → Nat → UInt16 → Ending (Option FilterResult)
  | 0, _, _ => .returned (some .pass)
  | n + 1, i, state =>
    -- The end of the packet stops the loop.
    if !ctx.getPtr i 1 then .returned (some .pass)
    else if !ctx.getPtr 0 1 then .returned none
    else if 8 ≤ state then .returned (some .drop)
    else
      (Ending.index matchWord state.toNat).bind fun expected =>
        matchLoop ctx n (i + 1) (if Bytes.u8 ctx.packet i = expected then state + 1 else 0)

/-- `try_filter` of `stringmatcher`. -/
def stringMatcher (ctx : BpfContext) : Ending (Option FilterResult) :=
  if !ctx.getPtr 0 ipv4HdrLen then .returned none
  else matchLoop ctx 2000 0 0

/-- `main` of `stringmatcher`. -/
def stringMatcherMain (ctx : BpfContext) : Ending FilterResult :=
  (stringMatcher ctx).map fun result => result.getD .abort

/-- What `dns-filter` uses of its library: the constructor of a message, the
    questions of one, each of them read or not, and whether a name is the one
    that is blocked. None of them is taken to panic; the library is not part of
    the repository. -/
structure DnsLibrary where
  Message : Type
  Name : Type
  new : Bytes → Option Message
  questions : Message → Option (List (Option Name))
  blocked : Name → Bool

/-- The loop over the questions. One that cannot be read is dropped, like one
    for the blocked name. -/
def DnsLibrary.verdict (lib : DnsLibrary) (message : lib.Message) : FilterResult :=
  match lib.questions message with
  | none => .drop
  | some questions =>
    if questions.any (fun question =>
      match question with
      | none => true
      | some name => lib.blocked name) then .drop
    else .pass

/-- The first half of `try_filter` of `dns-filter`: the data it hands to the
    parser, or the answer it gives without looking that far. -/
def dnsFilterData (ctx : BpfContext) : Option (Except FilterResult Bytes) :=
  if !ctx.getPtr 0 ethHdrLen then none
  else if Bytes.u16 ctx.packet 12 ≠ etherTypeIpv4 then some (.error .pass)
  else if !ctx.getPtr ethHdrLen ipv4HdrLen then none
  else
    let ipv4hdrLen := (Bytes.u8 ctx.packet ethHdrLen).toNat % 16 * 4
    if ipv4hdrLen < ipv4HdrLen then some (.error .pass)
    else if Bytes.u8 ctx.packet (ethHdrLen + 9) ≠ ipProtoUdp then some (.error .pass)
    else if !ctx.getPtr (ethHdrLen + ipv4hdrLen) udpHdrLen then none
    else if (portsAt ctx.packet (ethHdrLen + ipv4hdrLen)).2 ≠ 53 then some (.error .pass)
    else
      let udpDataLen := fromBe (Bytes.u16 ctx.packet (ethHdrLen + ipv4hdrLen + 4))
      (getSlice ctx udpDataLen.toNat (ethHdrLen + ipv4hdrLen + udpHdrLen)).map .ok

/-- `try_filter` of `dns-filter`, with what it unwraps. -/
def dnsFilterTry (lib : DnsLibrary) (ctx : BpfContext) : Ending (Option FilterResult) :=
  match dnsFilterData ctx with
  | none => .returned none
  | some (.error answer) => .returned (some answer)
  | some (.ok udpData) =>
    (Ending.unwrap (lib.new udpData)).bind fun message => .returned (some (lib.verdict message))

/-- `main` of `dns-filter`. -/
def dnsFilterRun (lib : DnsLibrary) (ctx : BpfContext) : Ending FilterResult :=
  (dnsFilterTry lib ctx).map fun result => result.getD .abort

/-- `next_port`, with the remainder it takes. -/
def nextPortRun (map : BpfMap) : Ending (Option (UInt16 × BpfMap)) :=
  match bpfMapLookupElem map (toLE 4 0) with
  | none => .faulted
  | some none => .returned none
  | some (some value) =>
    let port := if Bytes.u32 value 0 = 0 then portStart else Bytes.u32 value 0
    (Ending.rem (port - portStart + 1) (portEnd - portStart)).bind fun offset =>
      (Ending.ofOption (writeThrough map (toLE 4 0) 0 (toLE 4 (offset + portStart).toNat))).map
        fun map' => some (port.toUInt16, map')

/-- A flow from the inside that has no rule yet. -/
def classifyNewRun (maps : NatMaps) (ctx : BpfContext) (c : Connection) : Ending NatOutcome :=
  (nextPortRun maps.nextPort).bind fun next =>
    match next with
    | none => .returned ⟨maps, ctx.packet, none⟩
    | some (port, counter) =>
      (Ending.ofOption (insertRewrite maps.connections c (outgoingRewrite c port))).bind fun once =>
        (Ending.ofOption (insertRewrite once c (outgoingRewrite c port))).map fun twice =>
          rewritten ⟨twice, counter⟩ ctx c (outgoingRewrite c port) ctx.port

/-- `try_classify` of `nat`, with the remainders it takes. -/
def tryClassifyRun (maps : NatMaps) (ctx : BpfContext) : Ending NatOutcome :=
  match connectionOf ctx with
  | none => .returned ⟨maps, ctx.packet, none⟩
  | some c =>
    (Ending.ofOption (getRewrite maps.connections c)).bind fun rule =>
      match rule with
      | some r =>
        (Ending.rem r.output natOutputs).map fun output => rewritten maps ctx c r output
      | none =>
        if ctx.port = 1 then .returned ⟨maps, ctx.packet, some fOutput⟩
        else if ctx.port = 0 then classifyNewRun maps ctx c
        else .returned ⟨maps, ctx.packet, none⟩

/-- `main` of `nat`. -/
def natRun (maps : NatMaps) (ctx : BpfContext) : Ending (NatMaps × Bytes × UInt32) :=
  (tryClassifyRun maps ctx).map fun o => (o.maps, o.packet, o.result.getD 0xffffffff)

/-- `(bpf_ktime_get_ns() / 1_000_000_000) as u32`, with the division. -/
def wholeSecondsRun (ns : UInt64) : Ending UInt32 :=
  (Ending.div ns 1000000000).map UInt64.toUInt32

/-- `RateLimit::default`. -/
def rateDefaultRun (ns : UInt64) : Ending RateLimit :=
  (wholeSecondsRun ns).map fun now => ⟨1, now⟩

/-- `grant_tokens_if_needed`. -/
def grantTokensRun (r : RateLimit) (ns : UInt64) : Ending RateLimit :=
  (wholeSecondsRun ns).map fun now =>
    let elapsed := now - r.lastTokenGrant
    let tokens := r.tokens + elapsed
    if 0 < elapsed then ⟨if tokens ≤ 3 then tokens else 3, now⟩ else r

/-- `try_filter` of `rate-limiter`, with the divisions. -/
def rateLimiterTry (map : BpfMap) (ns : UInt64) (ctx : BpfContext) :
    Ending (BpfMap × Option FilterResult) :=
  if !ctx.getPtr 0 ipv4HdrLen then .returned (map, none)
  else
    (Ending.ofOption (getRateLimit map (sourceOf ctx))).bind fun found =>
      match found with
      | none =>
        (rateDefaultRun ns).bind fun fresh =>
          (Ending.ofOption (bpfMapUpdateElem map (sourceKey (sourceOf ctx)) fresh.encode)).bind
            fun inserted =>
              (Ending.ofOption (getRateLimit inserted (sourceOf ctx))).bind fun again =>
                match again with
                | none => .returned (inserted, none)
                | some r =>
                  (Ending.ofOption (spendFrom inserted (sourceOf ctx) r)).map
                    fun out => (out.1, some out.2)
      | some r =>
        (grantTokensRun r ns).bind fun granted =>
          (Ending.ofOption (setRateLimit map (sourceOf ctx) granted)).bind fun map' =>
            (Ending.ofOption (spendFrom map' (sourceOf ctx) granted)).map
              fun out => (out.1, some out.2)

/-- `main` of `rate-limiter`. -/
def rateLimiterRun (map : BpfMap) (ns : UInt64) (ctx : BpfContext) :
    Ending (BpfMap × FilterResult) :=
  (rateLimiterTry map ns ctx).map fun out => (out.1, out.2.getD .abort)

/-- `OUTPUTS` of `round-robin`. -/
def roundRobinOutputs : UInt32 := 2

/-- `main` of `round-robin`, with `try_classify`. -/
def roundRobinRun (map : BpfMap) : Ending (BpfMap × UInt32) :=
  (Ending.ofOption (bpfMapLookupElem map (toLE 4 0))).bind fun found =>
    match found with
    | none => .returned (map, 0)
    | some value =>
      (Ending.rem (Bytes.u32 value 0) roundRobinOutputs).bind fun output =>
        (Ending.ofOption (writeThrough map (toLE 4 0) 0 (toLE 4 (Bytes.u32 value 0 + 1).toNat))).map
          fun map' => (map', output)

/-- `enum ClassifyResult`. -/
inductive ClassifyResult where
  | udp
  | tcp
  | rest
deriving DecidableEq, Repr

/-- `try_classify` of `udp-tcp-classifier`. -/
def udpTcpClassifier (ctx : BpfContext) : Option ClassifyResult :=
  if !ctx.getPtr 0 ethHdrLen then none
  else if Bytes.u16 ctx.packet 12 ≠ etherTypeIpv4 then some .rest
  else if !ctx.getPtr ethHdrLen ipv4HdrLen then none
  else if (Bytes.u8 ctx.packet ethHdrLen).toNat % 16 * 4 < ipv4HdrLen then some .rest
  else
    let proto := Bytes.u8 ctx.packet (ethHdrLen + 9)
    if proto = ipProtoUdp then some .udp else if proto = ipProtoTcp then some .tcp else some .rest

/-- `main` of `udp-tcp-classifier`. -/
def udpTcpClassifierMain (ctx : BpfContext) : ClassifyResult :=
  (udpTcpClassifier ctx).getD .rest

/-- `main` of `ether-mirror`: the packet afterwards, with the addresses of the
    Ethernet header in each other's place. -/
def etherMirror (ctx : BpfContext) : Bytes × RewriterResult :=
  if ctx.getPtr 0 ethHdrLen then
    ((ctx.packet.drop 6).take 6 ++ ctx.packet.take 6 ++ ctx.packet.drop 12, .success)
  else (ctx.packet, .abort)

/-- The number of a result, by its `repr`. -/
def FilterResult.code : FilterResult → UInt32
  | .abort => 0
  | .drop => 1
  | .pass => 2

def RewriterResult.code : RewriterResult → UInt32
  | .abort => 0
  | .success => 1

def ClassifyResult.code : ClassifyResult → UInt32
  | .udp => 0
  | .tcp => 1
  | .rest => 2

/-- The programs of `ebpf/src/bin`. -/
inductive Program where
  | dnsFilter
  | drop
  | etherMirror
  | firewall
  | nat
  | pass
  | rateLimiter
  | roundRobin
  | stateMigrationV1
  | stateMigrationV2
  | stringMatcher
  | stripEtherVlanHeader
  | targetPort
  | udpTcpClassifier
deriving DecidableEq, Repr

/-- What a program is handed: a packet, the port it came in on, the clock, and
    what Click finds if the program asks for space. -/
structure Invocation where
  packet : WritablePacket
  port : UInt32
  ns : UInt64
  room : Room

def Invocation.ctx (inv : Invocation) : BpfContext :=
  ⟨inv.packet.bytes, inv.port⟩

/-- What a program keeps between its runs. -/
def Program.State : Program → Type
  | .nat => NatMaps
  | .rateLimiter => BpfMap
  | .roundRobin => BpfMap
  | .stateMigrationV1 => Filtering
  | .stateMigrationV2 => Filtering
  | _ => Unit

/-- The state of a program that has just been loaded. The maps of the two
    versions are those a load of them makes. -/
def Program.Loaded : (p : Program) → p.State → Prop
  | .nat, maps => maps = NatMaps.new
  | .rateLimiter, map => map = pktCountNew
  | .roundRobin, map => map = ⟨counterDef32, .array (List.replicate 4 0)⟩
  | .stateMigrationV1, s => ∃ A file, loadVersion A .new .v1 file = some s
  | .stateMigrationV2, s => ∃ A file, loadVersion A .new .v2 file = some s
  | _, _ => True

/-- A run of a version: its state, and the last of its answers. -/
def filterRun (s : Filtering) : Ending (Filtering × UInt32) :=
  (Ending.ofOption (filterPacket s)).map fun s' => (s', (s'.answers.getLastD .abort).code)

/-- One run of a program on a packet. -/
def Program.main (lib : DnsLibrary) : (p : Program) → p.State → Invocation →
    Ending (p.State × UInt32)
  | .dnsFilter, _, inv => (dnsFilterRun lib inv.ctx).map fun r => ((), r.code)
  | .drop, _, _ => .returned ((), FilterResult.drop.code)
  | .etherMirror, _, inv => .returned ((), (UniBPF.etherMirror inv.ctx).2.code)
  | .firewall, _, inv => .returned ((), (firewallMain inv.ctx).code)
  | .nat, maps, inv => (natRun maps inv.ctx).map fun out => (out.1, out.2.2)
  | .pass, _, _ => .returned ((), FilterResult.pass.code)
  | .rateLimiter, map, inv => (rateLimiterRun map inv.ns inv.ctx).map fun out => (out.1, out.2.code)
  | .roundRobin, map, _ => roundRobinRun map
  | .stateMigrationV1, s, _ => filterRun s
  | .stateMigrationV2, s, _ => filterRun s
  | .stringMatcher, _, inv => (stringMatcherMain inv.ctx).map fun r => ((), r.code)
  | .stripEtherVlanHeader, _, inv =>
    (Ending.ofOption (UniBPF.stripEtherVlanHeader inv.packet inv.room)).map fun out =>
      ((), out.2.code)
  | .targetPort, _, inv => .returned ((), (targetPortMain inv.ctx).code)
  | .udpTcpClassifier, _, inv => .returned ((), (udpTcpClassifierMain inv.ctx).code)

/-- One run as a step of the state. -/
def Program.step (lib : DnsLibrary) (p : Program) (s : p.State) (inv : Invocation) :
    Option p.State :=
  match p.main lib s inv with
  | .returned out => some out.1
  | _ => none

end UniBPF
