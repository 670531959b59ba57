import UniBPF.Theory.RealPorts

/-!
# What the Translator Writes

The translator changes the packet and the maps in several steps, some of
which can fail: the bounds are checked before the flow is read and again
before the ports are written, and in between the addresses are written and
two rules inserted. None of the later checks fails once the flow has been
read, so a run that ends in an error has changed nothing.

A run that applies a rule writes the addresses, the header checksum, and the
ports twenty bytes into the packet. In a packet without options these are the
ports. With options they are not, and the packet keeps its ports and loses
four bytes of its options (`all_or_nothing_iff`).

## Main definitions

* `transportOffset`: Where the ports are.
* `AppliedWhole`: A rule was applied, to its fields and nothing else.
* `PlacesAgree`: The program writes the ports where they are, or there is
  nothing to write.
* `AllOrNothing`: What a run should have done.

## Theorems

* `appliedWhole_iff`: When a rule is applied to its fields and nothing else.
* `natMain_error`: A run that ends in an error changes nothing.
* `all_or_nothing_iff`: When a run does all or nothing.
-/

namespace UniBPF

open LittleEndian

/-- Where the ports are: behind the header, which has at least twenty bytes. -/
def transportOffset (p : Bytes) : Nat :=
  max 20 (4 * Bytes.ihl p)

/-- The rule was applied: `q` has its addresses and ports, and differs from
    `p` in nothing else but the header checksum. -/
structure AppliedWhole (p : Bytes) (r : Rewrite) (q : Bytes) : Prop where
  srcIp : Bytes.u32 q 12 = r.srcIp
  dstIp : Bytes.u32 q 16 = r.dstIp
  complete : transportOffset p + 4 ≤ q.length
  ports : portsAt q (transportOffset p) = (r.srcPort, r.dstPort)
  others : ∀ i, (i < 10 ∨ 20 ≤ i) → (i < transportOffset p ∨ transportOffset p + 4 ≤ i) →
    q[i]? = p[i]?

/-- The header has no options, or both the bytes that are written and the
    ports are those of the rule already. -/
def PlacesAgree (p : Bytes) (r : Rewrite) : Prop :=
  Bytes.ihl p ≤ 5 ∨ (4 * Bytes.ihl p + 4 ≤ p.length ∧ portsAt p 20 = (r.srcPort, r.dstPort) ∧
    realPorts p = (r.srcPort, r.dstPort))

section Written

variable (p : Bytes) (r : Rewrite) (h : 24 ≤ p.length)

include h

/-- The bytes of the rewritten packet outside the checksum, the addresses and
    the four bytes behind them. -/
theorem getElem_rewrittenBy (i : Nat) (hi : i < 10 ∨ 24 ≤ i) : (rewrittenBy p r)[i]? = p[i]? := by
  rcases hi with hbefore | hbehind
  · have hpre := length_take_ten p (by omega)
    have hfront : (p.take 10)[i]? = p[i]? := List.getElem?_take_of_lt hbefore
    rw [rewrittenBy_eq p r h, addressed, List.getElem?_append_left (by omega), hfront]
  · have hdrop := drop_rewrittenBy p r h i hbehind
    rw [← List.head?_drop, ← List.head?_drop, hdrop]

/-- The four bytes behind the addresses stay exactly when they are the ports
    of the rule. -/
theorem drop_twenty_iff :
    (rewrittenBy p r).drop 20 = p.drop 20 ↔ portsAt p 20 = (r.srcPort, r.dstPort) := by
  constructor
  · intro hsame
    have hlater : (rewrittenBy p r).drop (20 + 2) = p.drop (20 + 2) := by
      rw [← List.drop_drop, ← List.drop_drop, hsame]
    rw [← portsAt_rewrittenBy_twenty p r h, portsAt, portsAt, Bytes.u16, Bytes.u16, Bytes.u16,
      Bytes.u16, readLE, readLE, readLE, readLE, hsame, hlater]
  · intro hports
    have hsource : fromBe (Bytes.u16 p 20) = r.srcPort := congrArg Prod.fst hports
    have hdest : fromBe (Bytes.u16 p (20 + 2)) = r.dstPort := congrArg Prod.snd hports
    rw [drop_rewrittenBy_twenty p r h, ← withPorts_self p 20 h, hsource, hdest]

/-- A rule is applied to its fields and nothing else exactly when the ports
    are where it is written. -/
theorem appliedWhole_iff : AppliedWhole p r (rewrittenBy p r) ↔ PlacesAgree p r := by
  have hfields := rewrite_fields p r h
  have hsrc : Bytes.u32 (rewrittenBy p r) 12 = r.srcIp := hfields.srcIp
  have hdst : Bytes.u32 (rewrittenBy p r) 16 = r.dstIp := hfields.dstIp
  have hlen : (rewrittenBy p r).length = p.length := hfields.length
  unfold PlacesAgree
  by_cases hfive : Bytes.ihl p ≤ 5
  -- The ports are behind twenty bytes.
  · have hoff : transportOffset p = 20 := by
      unfold transportOffset
      omega
    refine ⟨fun _ => .inl hfive, fun _ => ⟨hsrc, hdst, ?_, ?_, ?_⟩⟩
    · rw [hoff, hlen]
      exact h
    · rw [hoff]
      exact portsAt_rewrittenBy_twenty p r h
    · intro i hfirst hsecond
      rw [hoff] at hsecond
      exact getElem_rewrittenBy p r h i (by omega)
  · have hoff : transportOffset p = 4 * Bytes.ihl p := by
      unfold transportOffset
      omega
    -- With options the ports are further on, where nothing is written.
    have hports := portsAt_rewrittenBy_behind p r h (4 * Bytes.ihl p) (by omega)
    constructor
    · intro hwhole
      refine .inr ⟨?_, ?_, ?_⟩
      · rw [← hlen, ← hoff]
        exact hwhole.complete
      -- No byte behind the addresses has changed.
      · rw [← drop_twenty_iff p r h]
        apply List.ext_getElem?
        intro i
        rw [List.getElem?_drop, List.getElem?_drop]
        by_cases hi : 24 ≤ 20 + i
        · exact getElem_rewrittenBy p r h (20 + i) (.inr hi)
        · exact hwhole.others (20 + i) (.inr (by omega)) (.inl (by rw [hoff]; omega))
      · rw [realPorts, ← hports, ← hoff]
        exact hwhole.ports
    · intro hagree
      rcases hagree.resolve_left hfive with ⟨hcomplete, htwenty, hreal⟩
      have hsame := (drop_twenty_iff p r h).mpr htwenty
      refine ⟨hsrc, hdst, ?_, ?_, ?_⟩
      · rw [hoff, hlen]
        exact hcomplete
      · rw [hoff, hports]
        exact hreal
      · intro i hfirst _
        rcases hfirst with hbefore | hbehind
        · exact getElem_rewrittenBy p r h i (.inl hbefore)
        · have hi : 20 + (i - 20) = i := by omega
          have hget := congrArg (·[i - 20]?) hsame
          simp only [List.getElem?_drop, hi] at hget
          exact hget

end Written

/-- What a run should have done: nothing if it ends in an error, and
    everything a rule says if one is applied. -/
structure AllOrNothing (m : NatMaps) (ctx : BpfContext) (m' : NatMaps) (q : Bytes)
    (output : UInt32) : Prop where
  nothing : output = 0xffffffff →
    q = ctx.packet ∧ m'.connections = m.connections ∧ m'.nextPort = m.nextPort
  all : ∀ r, appliedRule m ctx = some r → AppliedWhole ctx.packet r q

section Run

variable (m : NatMaps) (ctx : BpfContext)

/-- A run that ends in an error changes nothing. -/
theorem natMain_error (m' : NatMaps) (q : Bytes) (output : UInt32)
    (hcases : Classified m ctx m' q output) (herror : output = 0xffffffff) :
    q = ctx.packet ∧ m' = m := by
  cases hcases with
  | noFlow hc => exact ⟨rfl, rfl⟩
  | elsewhere c hc hrule hport => exact ⟨rfl, rfl⟩
  | fromOutside c hc hrule hport => exact absurd herror (by decide)
  | newFlow c _ hc hrule hport hcounter hrules => exact absurd herror (by decide)
  | ruled c r hc hrule =>
      -- A rule sends to one of two outputs.
      have hvalue := congrArg UInt32.toNat herror
      rw [UInt32.toNat_mod] at hvalue
      have htwo : natOutputs.toNat = 2 := rfl
      have hmax : (0xffffffff : UInt32).toNat = 4294967295 := rfl
      rw [htwo, hmax] at hvalue
      omega

/-- A packet that a rule is applied to is long enough for it. -/
theorem length_of_appliedRule (r : Rewrite) (h : appliedRule m ctx = some r) :
    28 ≤ ctx.packet.length := by
  unfold appliedRule at h
  cases hc : connectionOf ctx with
  | none =>
      rw [hc] at h
      exact absurd h (by simp only [reduceCtorEq, not_false_eq_true])
  | some c => exact (connectionOf_some ctx c hc).1

/-- Every run ends. One that ends in an error has changed nothing, and one
    that applies a rule has written its addresses, and its ports twenty bytes
    into the packet, and changed nothing else but the header checksum. That is
    all or nothing exactly when the ports are there, or there is nothing to
    write. -/
theorem all_or_nothing_iff (hm : m.Sound) :
    ∃ m' q output, natMain m ctx = some (m', q, output) ∧
      (output = 0xffffffff → q = ctx.packet ∧ m' = m) ∧
      (∀ r, appliedRule m ctx = some r → Rewritten ctx.packet r q ∧
        ∀ i, i < 10 ∨ 24 ≤ i → q[i]? = ctx.packet[i]?) ∧
      (AllOrNothing m ctx m' q output ↔
        ∀ r, appliedRule m ctx = some r → PlacesAgree ctx.packet r) := by
  rcases classify_cases m ctx hm with ⟨m', q, output, hmain, -, hcases⟩
  have hpacket := natMain_packet m ctx hm m' q output hmain
  have herror := natMain_error m ctx m' q output hcases
  -- An error is reported before anything is written.
  have hnothing : output = 0xffffffff →
      q = ctx.packet ∧ m'.connections = m.connections ∧ m'.nextPort = m.nextPort := by
    intro hout
    rcases herror hout with ⟨hq, hmaps⟩
    rw [hmaps]
    exact ⟨hq, rfl, rfl⟩
  -- Otherwise the packet is the one the applied rule makes.
  have happlied : ∀ r, appliedRule m ctx = some r → q = rewrittenBy ctx.packet r := by
    intro r hr
    rwa [hr] at hpacket
  refine ⟨m', q, output, hmain, herror, ?_, ?_⟩
  · intro r hr
    have hlen := length_of_appliedRule m ctx r hr
    rw [happlied r hr]
    exact ⟨rewrite_fields ctx.packet r (by omega),
      fun i hi => getElem_rewrittenBy ctx.packet r (by omega) i hi⟩
  · constructor
    · intro hall r hr
      have hlen := length_of_appliedRule m ctx r hr
      have hwhole := hall.all r hr
      rw [happlied r hr] at hwhole
      exact (appliedWhole_iff ctx.packet r (by omega)).mp hwhole
    · intro hagree
      refine ⟨hnothing, ?_⟩
      intro r hr
      have hlen := length_of_appliedRule m ctx r hr
      rw [happlied r hr]
      exact (appliedWhole_iff ctx.packet r (by omega)).mpr (hagree r hr)

end Run

/-- The first packet of a flow, without options. -/
theorem all_or_nothing_plain : ∃ m q output,
    natMain NatMaps.new ⟨plainPacket, 0⟩ = some (m, q, output) ∧
      AllOrNothing NatMaps.new ⟨plainPacket, 0⟩ m q output := by
  rcases all_or_nothing_iff NatMaps.new ⟨plainPacket, 0⟩ NatMaps.new_sound with
    ⟨m, q, output, hmain, -, -, hiff⟩
  exact ⟨m, q, output, hmain, hiff.mpr (fun r _ => .inl (by decide))⟩

/-- With options its ports stay, and the options are overwritten. -/
theorem all_or_nothing_options : ∃ m q output,
    natMain NatMaps.new ⟨optionsPacket, 0⟩ = some (m, q, output) ∧
      realPorts q = realPorts optionsPacket ∧
      ¬ AllOrNothing NatMaps.new ⟨optionsPacket, 0⟩ m q output := by
  have hrule : appliedRule NatMaps.new ⟨optionsPacket, 0⟩ = some (outgoingRewrite
      ⟨0x02002cac, 257, 0x08080808, 257, ipProtoUdp⟩ 50000) := rfl
  rcases classify_cases NatMaps.new ⟨optionsPacket, 0⟩ NatMaps.new_sound with
    ⟨m, q, output, hmain, -, -⟩
  have hpacket := natMain_packet _ _ NatMaps.new_sound m q output hmain
  rw [hrule] at hpacket
  have hreal : realPorts q = realPorts optionsPacket := by
    rw [hpacket]
    decide
  refine ⟨m, q, output, hmain, hreal, ?_⟩
  intro hall
  have hports := (hall.all _ hrule).ports
  rw [hpacket] at hports
  exact absurd hports (by decide)

end UniBPF
