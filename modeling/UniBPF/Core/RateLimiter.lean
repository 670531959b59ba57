import UniBPF.Core.Filters
import UniBPF.Core.Maps

/-!
# The Rate Limiter

`ebpf/src/bin/rate-limiter.rs`: a filter that lets one packet of a source
through, one more for each second that passes, and no more than three of
these at once. What it knows of a source is in a hash map of the runtime,
under the address as it lies in the packet.

The clock is read once for each packet, and only its whole seconds are used,
as a 32-bit number. Arithmetic on these wraps. A packet of a source that is
known is granted tokens before it takes one; the first packet of a source
makes an entry with one token and takes that.

The program works on the entry through the pointer a lookup returns. After an
entry has been inserted it is looked up again.

## Main definitions

* `RateLimit`: The entry of a source.
* `grantTokensIfNeeded`, `spendToken`: What a packet does to it.
* `rateLimiter`, `rateLimiterMain`: The program.
* `rateServe`: A run over packets.
-/

namespace UniBPF

open LittleEndian

/-- `struct RateLimit`. -/
structure RateLimit where
  tokens : UInt32
  lastTokenGrant : UInt32
deriving DecidableEq, Repr

/-- The bytes of an entry in the map. -/
def RateLimit.encode (r : RateLimit) : Bytes :=
  toLE 4 r.tokens.toNat ++ toLE 4 r.lastTokenGrant.toNat

def RateLimit.decode (bs : Bytes) : RateLimit where
  tokens := Bytes.u32 bs 0
  lastTokenGrant := Bytes.u32 bs 4

/-- `(bpf_ktime_get_ns() / 1_000_000_000) as u32`. -/
def wholeSeconds (ns : UInt64) : UInt32 :=
  (ns / 1000000000).toUInt32

/-- `RateLimit::default`. -/
def RateLimit.default (ns : UInt64) : RateLimit where
  tokens := 1
  lastTokenGrant := wholeSeconds ns

/-- `grant_tokens_if_needed`. -/
def grantTokensIfNeeded (r : RateLimit) (ns : UInt64) : RateLimit :=
  let now := wholeSeconds ns
  let elapsed := now - r.lastTokenGrant
  let tokens := r.tokens + elapsed
  if 0 < elapsed then ⟨if tokens ≤ 3 then tokens else 3, now⟩ else r

/-- `spend_token`. -/
def spendToken (r : RateLimit) : RateLimit × Bool :=
  if 1 ≤ r.tokens then (⟨r.tokens - 1, r.lastTokenGrant⟩, true) else (r, false)

/-- `PKTCOUNTHASHMAP`, as it is declared. -/
def pktCountDef : MapDef := ⟨mapTypeHash, 4, 8, 1024, 0, 0, 0⟩

/-- The key of a source: its address, as it lies in the packet. -/
def sourceKey (src : UInt32) : Bytes :=
  toLE 4 src.toNat

/-- `PKTCOUNTHASHMAP.get_ptr_mut`, with what is behind the pointer. -/
def getRateLimit (map : BpfMap) (src : UInt32) : Option (Option RateLimit) :=
  (bpfMapLookupElem map (sourceKey src)).map fun value => value.map RateLimit.decode

/-- A write through that pointer. -/
def setRateLimit (map : BpfMap) (src : UInt32) (r : RateLimit) : Option BpfMap :=
  writeThrough map (sourceKey src) 0 r.encode

/-- A packet takes a token from the entry of its source. -/
def spendFrom (map : BpfMap) (src : UInt32) (r : RateLimit) : Option (BpfMap × FilterResult) :=
  let (r', spent) := spendToken r
  (setRateLimit map src r').map fun map' => (map', if spent then .pass else .drop)

/-- The source address of a packet. -/
def sourceOf (ctx : BpfContext) : UInt32 :=
  Bytes.u32 ctx.packet 12

/-- `try_filter`. An inner `none` is its error. -/
def rateLimiter (map : BpfMap) (ns : UInt64) (ctx : BpfContext) :
    Option (BpfMap × Option FilterResult) :=
  if !ctx.getPtr 0 ipv4HdrLen then some (map, none)
  else
    match getRateLimit map (sourceOf ctx) with
    | none => none
    | some none =>
      match bpfMapUpdateElem map (sourceKey (sourceOf ctx)) (RateLimit.default ns).encode with
      | none => none
      | some inserted =>
        match getRateLimit inserted (sourceOf ctx) with
        | none => none
        | some none => some (inserted, none)
        | some (some r) =>
          (spendFrom inserted (sourceOf ctx) r).map fun out => (out.1, some out.2)
    | some (some r) =>
      let granted := grantTokensIfNeeded r ns
      match setRateLimit map (sourceOf ctx) granted with
      | none => none
      | some map' =>
        (spendFrom map' (sourceOf ctx) granted).map fun out => (out.1, some out.2)

/-- `main`. -/
def rateLimiterMain (map : BpfMap) (ns : UInt64) (ctx : BpfContext) :
    Option (BpfMap × FilterResult) :=
  (rateLimiter map ns ctx).map fun out => (out.1, out.2.getD .abort)

/-- A packet, with the clock when the program looks at it. -/
structure Arrival where
  ns : UInt64
  ctx : BpfContext

/-- A run over packets: the map at the end, and the answers. -/
def rateServe : BpfMap → List Arrival → Option (BpfMap × List FilterResult)
  | map, [] => some (map, [])
  | map, e :: es =>
    match rateLimiterMain map e.ns e.ctx with
    | none => none
    | some (map', answer) => (rateServe map' es).map fun rest => (rest.1, answer :: rest.2)

/-- The map of a program that has just been loaded. -/
def pktCountNew : BpfMap := ⟨pktCountDef, .hash []⟩

end UniBPF
