import UniBPF.Core.NatProgram
import UniBPF.Lib.Steps

/-!
# The Translator's Table

What a run of the address translator does, in terms of its rules and its port
counter. The maps it works on hold bytes; a rule is looked up by the number
of a flow and decoded, the counter is read as a number, and every run of the
program on a packet is one of five things (`classify_cases`):

* the packet is of no flow, and is refused;
* the flow has a rule, and the packet is rewritten by it;
* it has none and the packet comes from outside, so it is let through;
* it has none and the packet comes from inside, so the flow gets a rule with
  the next port;
* it has none and comes from elsewhere, and is refused.

Only the fourth changes the table, and it adds to it. A rule is therefore
never replaced, and every rule that was not there at the start sends its
packets to the outside.

## Main definitions

* `NatMaps.Sound`: Maps of the declared kinds.
* `NatMaps.rule`, `NatMaps.counter`: The table and the counter.
* `Classified`: What a run of the program does.
* `appliedRule`: The rule a packet is rewritten by.
* `natStep`: One packet, as a step of the maps.
* `udpPacket`: A packet of a given flow.

## Theorems

* `connectionToU128_lt`: The number of a flow has 128 bits.
* `decode_encode`: A rule is read back as it was stored.
* `applyRewrite_flow`, `connectionOf_rewrite`: A packet of a flow can be
  rewritten, and then it is of the flow the rule says.
* `nextPort_sound`, `insertRewrite_sound`: The map operations.
* `classify_cases`, `natMain_packet`: What a run of the program does.
* `rule_kept`, `run_rule_kept`: Rules stay, and new ones send to the outside.
-/

namespace UniBPF

open LittleEndian

/-- The maps are of the kinds the program declares. -/
structure NatMaps.Sound (m : NatMaps) : Prop where
  connections : ∃ entries, m.connections = ⟨connectionsDef, .hash entries⟩
  nextPort : ∃ block, m.nextPort = ⟨nextPortDef, .array block⟩ ∧ block.length = 4

/-- The rule under a number. -/
def NatMaps.rule (m : NatMaps) (k : Nat) : Option Rewrite :=
  match m.connections.data with
  | .hash entries => (entries.lookup (toLE 16 k)).map Rewrite.decode
  | .array _ => none

/-- What is in the port counter. -/
def NatMaps.counter (m : NatMaps) : UInt32 :=
  match m.nextPort.data with
  | .array block => Bytes.u32 block 0
  | .hash _ => 0

/-- The port handed out next: a counter that was never used is set first. -/
def NatMaps.port (m : NatMaps) : UInt32 :=
  if m.counter = 0 then portStart else m.counter

theorem NatMaps.new_sound : NatMaps.new.Sound :=
  ⟨⟨[], rfl⟩, ⟨List.replicate 4 0, rfl, rfl⟩⟩

/-- A part of `n` bits, moved up inside `t` bits. -/
theorem shiftLeft_lt_two_pow (x n s t : Nat) (hx : x < 2 ^ n) (hs : n + s ≤ t) :
    x <<< s < 2 ^ t := by
  rw [Nat.shiftLeft_eq]
  calc x * 2 ^ s < 2 ^ n * 2 ^ s := Nat.mul_lt_mul_of_pos_right hx (Nat.two_pow_pos s)
    _ = 2 ^ (n + s) := (Nat.pow_add 2 n s).symm
    _ ≤ 2 ^ t := Nat.pow_le_pow_right (by decide) hs

theorem connectionToU128_lt (c : Connection) : connectionToU128 c < 2 ^ 128 := by
  refine Nat.or_lt_two_pow (Nat.or_lt_two_pow (Nat.or_lt_two_pow (Nat.or_lt_two_pow ?_ ?_) ?_) ?_)
    ?_
  · exact shiftLeft_lt_two_pow _ 32 96 128 c.srcIp.toNat_lt (by decide)
  · exact shiftLeft_lt_two_pow _ 16 80 128 c.srcPort.toNat_lt (by decide)
  · exact shiftLeft_lt_two_pow _ 32 64 128 c.dstIp.toNat_lt (by decide)
  · exact shiftLeft_lt_two_pow _ 16 48 128 c.dstPort.toNat_lt (by decide)
  · exact shiftLeft_lt_two_pow _ 8 32 128 c.protocol.toNat_lt (by decide)

/-- Keys are the same where the numbers are. -/
theorem key_inj (j k : Nat) (hj : j < 2 ^ 128) (hk : k < 2 ^ 128) :
    toLE 16 j = toLE 16 k ↔ j = k := by
  constructor
  · intro h
    have hvalue := congrArg ofLE h
    rw [ofLE_toLE, ofLE_toLE, Nat.mod_eq_of_lt (by exact hj),
      Nat.mod_eq_of_lt (by exact hk)] at hvalue
    exact hvalue
  · intro h
    rw [h]

theorem decode_encode (r : Rewrite) : Rewrite.decode r.encode = r := by
  rcases r with ⟨srcIp, srcPort, dstIp, dstPort, output⟩
  -- The last field has nothing behind it.
  have hlast : toLE 2 dstPort.toNat = toLE 2 dstPort.toNat ++ [] := (List.append_nil _).symm
  simp only [Rewrite.decode, Rewrite.encode, Bytes.u32, Bytes.u16, Rewrite.mk.injEq]
  refine ⟨?_, ?_, ?_, ?_, ?_⟩
  · rw [ofNat_readLE_u32]
  · rw [readLE_toLE_skip 4 _ _ 8, readLE_toLE_skip 4 _ _ 4, readLE_toLE_skip 4 _ _ 0,
      ofNat_readLE_u16]
  · rw [readLE_toLE_skip 4 _ _ 0, ofNat_readLE_u32]
  · rw [readLE_toLE_skip 4 _ _ 10, readLE_toLE_skip 4 _ _ 6, readLE_toLE_skip 4 _ _ 2,
      readLE_toLE_skip 2 _ _ 0, hlast, ofNat_readLE_u16]
  · rw [readLE_toLE_skip 4 _ _ 4, readLE_toLE_skip 4 _ _ 0, ofNat_readLE_u32]

section Rewriting

variable (p : Bytes) (r : Rewrite)

/-- The headers of a packet that was rewritten: the addresses and the ports
    are those of the rule, the protocol is as it was. -/
structure Rewritten (q : Bytes) : Prop where
  length : q.length = p.length
  protocol : Bytes.u8 q 9 = Bytes.u8 p 9
  srcIp : Bytes.u32 q 12 = r.srcIp
  dstIp : Bytes.u32 q 16 = r.dstIp
  srcPort : Bytes.u16 q 20 = fromBe r.srcPort
  dstPort : Bytes.u16 q 22 = fromBe r.dstPort

theorem setAddresses_fields (h : 20 ≤ p.length) :
    (setAddresses p r).length = p.length ∧ Bytes.u8 (setAddresses p r) 9 = Bytes.u8 p 9 ∧
      Bytes.u32 (setAddresses p r) 12 = r.srcIp ∧ Bytes.u32 (setAddresses p r) 16 = r.dstIp := by
  -- What the checksum is does not matter here.
  obtain ⟨x, y, heq⟩ : ∃ x y, setAddresses p r = Bytes.setU32 (Bytes.setU16 (Bytes.setU32
      (Bytes.setU16 p 10 x) 12 r.srcIp) 10 y) 16 r.dstIp := ⟨_, _, rfl⟩
  have h₁ := Bytes.length_setU16 p 10 x (by omega)
  have h₂ := Bytes.length_setU32 (Bytes.setU16 p 10 x) 12 r.srcIp (by omega)
  have h₃ := Bytes.length_setU16 (Bytes.setU32 (Bytes.setU16 p 10 x) 12 r.srcIp) 10 y (by omega)
  have h₄ := Bytes.length_setU32 (Bytes.setU16 (Bytes.setU32 (Bytes.setU16 p 10 x) 12 r.srcIp) 10 y)
    16 r.dstIp (by omega)
  rw [heq]
  refine ⟨by omega, ?_, ?_, ?_⟩
  · rw [Bytes.u8, Bytes.readLE_setU32 _ _ _ _ _ (by omega) (by omega),
      Bytes.readLE_setU16 _ _ _ _ _ (by omega) (by omega),
      Bytes.readLE_setU32 _ _ _ _ _ (by omega) (by omega),
      Bytes.readLE_setU16 _ _ _ _ _ (by omega) (by omega)]
    rfl
  · rw [Bytes.u32, Bytes.readLE_setU32 _ _ _ _ _ (by omega) (by omega),
      Bytes.readLE_setU16 _ _ _ _ _ (by omega) (by omega)]
    exact Bytes.u32_setU32 _ 12 r.srcIp (by omega)
  · exact Bytes.u32_setU32 _ 16 r.dstIp (by omega)

theorem rewrite_fields (h : 24 ≤ p.length) :
    Rewritten p r (setPorts (setAddresses p r) r) := by
  rcases setAddresses_fields p r (by omega) with ⟨hlen, hproto, hsrc, hdst⟩
  have h₁ := Bytes.length_setU16 (setAddresses p r) 20 (fromBe r.srcPort) (by omega)
  have h₂ := Bytes.length_setU16 (Bytes.setU16 (setAddresses p r) 20 (fromBe r.srcPort)) 22
    (fromBe r.dstPort) (by omega)
  have hports : setPorts (setAddresses p r) r = Bytes.setU16 (Bytes.setU16 (setAddresses p r) 20
    (fromBe r.srcPort)) 22 (fromBe r.dstPort) := rfl
  -- Whatever lies before the ports is as the addresses left it.
  have hbefore : ∀ off w, off + w ≤ 20 → readLE (setPorts (setAddresses p r) r) off w
      = readLE (setAddresses p r) off w := by
    intro off w hw
    rw [hports, Bytes.readLE_setU16 _ _ _ _ _ (by omega) (by omega),
      Bytes.readLE_setU16 _ _ _ _ _ (by omega) (by omega)]
  refine ⟨by rw [hports]; omega, ?_, ?_, ?_, ?_, ?_⟩
  · rw [Bytes.u8, hbefore 9 1 (by decide)]
    exact hproto
  · rw [Bytes.u32, hbefore 12 4 (by decide)]
    exact hsrc
  · rw [Bytes.u32, hbefore 16 4 (by decide)]
    exact hdst
  · rw [hports, Bytes.u16, Bytes.readLE_setU16 _ _ _ _ _ (by omega) (by omega)]
    exact Bytes.u16_setU16 _ 20 _ (by omega)
  · rw [hports]
    exact Bytes.u16_setU16 _ 22 _ (by omega)

end Rewriting

section Flow

variable (ctx : BpfContext) (c : Connection)

/-- A packet of a flow: its transport header is complete, and its fields are
    those of the flow. -/
theorem connectionOf_some (h : connectionOf ctx = some c) :
    28 ≤ ctx.packet.length ∧ c = packetConnection ctx.packet (Bytes.u8 ctx.packet 9) ∧
      ((c.protocol = ipProtoTcp ∧ ctx.getPtr ipv4HdrLen tcpHdrLen = true) ∨
        (c.protocol = ipProtoUdp ∧ ctx.getPtr ipv4HdrLen udpHdrLen = true)) := by
  unfold connectionOf at h
  split at h
  · exact absurd h (by simp only [reduceCtorEq, not_false_eq_true])
  · simp only [] at h
    split at h
    · rename_i hproto
      split at h
      · rename_i hptr
        have hlen : ipv4HdrLen + tcpHdrLen ≤ ctx.packet.length := of_decide_eq_true hptr
        rw [← Option.some.inj h]
        exact ⟨Nat.le_trans (by decide) hlen, rfl, .inl ⟨hproto, hptr⟩⟩
      · exact absurd h (by simp only [reduceCtorEq, not_false_eq_true])
    · split at h
      · rename_i hproto
        split at h
        · rename_i hptr
          have hlen : ipv4HdrLen + udpHdrLen ≤ ctx.packet.length := of_decide_eq_true hptr
          rw [← Option.some.inj h]
          exact ⟨Nat.le_trans (by decide) hlen, rfl, .inr ⟨hproto, hptr⟩⟩
        · exact absurd h (by simp only [reduceCtorEq, not_false_eq_true])
      · exact absurd h (by simp only [reduceCtorEq, not_false_eq_true])

/-- Conversely, such a packet is of the flow in its headers. -/
theorem connectionOf_of_headers (p : Bytes) (port : UInt32)
    (hproto : (Bytes.u8 p 9 = ipProtoTcp ∧ 40 ≤ p.length) ∨
      (Bytes.u8 p 9 = ipProtoUdp ∧ 28 ≤ p.length)) :
    connectionOf ⟨p, port⟩ = some (packetConnection p (Bytes.u8 p 9)) := by
  have hlen : 28 ≤ p.length := by omega
  have hip : (BpfContext.mk p port).getPtr 0 ipv4HdrLen = true :=
    decide_eq_true (Nat.le_trans (by decide) hlen)
  unfold connectionOf
  rcases hproto with ⟨htcp, hlong⟩ | ⟨hudp, hlong⟩
  · have hptr : (BpfContext.mk p port).getPtr ipv4HdrLen tcpHdrLen = true := decide_eq_true hlong
    simp only [hip, hptr, htcp, Bool.not_true, Bool.false_eq_true, if_false, if_true]
  · have hptr : (BpfContext.mk p port).getPtr ipv4HdrLen udpHdrLen = true := decide_eq_true hlong
    have hne : ¬ ipProtoUdp = ipProtoTcp := by decide
    simp only [hip, hptr, hudp, hne, Bool.not_true, Bool.false_eq_true, if_false, if_true]

/-- A packet of a flow can be rewritten. -/
theorem applyRewrite_flow (r : Rewrite) (h : connectionOf ctx = some c) :
    applyRewrite ctx c r = (setPorts (setAddresses ctx.packet r) r, true) := by
  rcases connectionOf_some ctx c h with ⟨hlen, -, hproto⟩
  have hip : ctx.getPtr 0 ipv4HdrLen = true := decide_eq_true (Nat.le_trans (by decide) hlen)
  unfold applyRewrite
  rcases hproto with ⟨htcp, hptr⟩ | ⟨hudp, hptr⟩
  · simp only [hip, hptr, htcp, Bool.not_true, Bool.false_eq_true, if_false, if_true]
  · have hne : ¬ ipProtoUdp = ipProtoTcp := by decide
    simp only [hip, hptr, hudp, hne, Bool.not_true, Bool.false_eq_true, if_false, if_true]

/-- Then it is of the flow the rule says. -/
theorem connectionOf_rewrite (r : Rewrite) (port : UInt32) (h : connectionOf ctx = some c) :
    connectionOf ⟨setPorts (setAddresses ctx.packet r) r, port⟩
      = some ⟨r.srcIp, r.srcPort, r.dstIp, r.dstPort, c.protocol⟩ := by
  rcases connectionOf_some ctx c h with ⟨hlen, hc, hproto⟩
  have hfields := rewrite_fields ctx.packet r (by omega)
  have hprotocol : c.protocol = Bytes.u8 ctx.packet 9 := by rw [hc]; rfl
  rw [connectionOf_of_headers]
  · simp only [packetConnection, hfields.srcIp, hfields.dstIp, ipv4HdrLen, hfields.srcPort,
      hfields.dstPort, hfields.protocol, fromBe_fromBe, hprotocol]
  -- The headers are as complete as they were.
  · rw [hfields.protocol, hfields.length, ← hprotocol]
    rcases hproto with ⟨htcp, hptr⟩ | ⟨hudp, hptr⟩
    · exact .inl ⟨htcp, of_decide_eq_true hptr⟩
    · exact .inr ⟨hudp, of_decide_eq_true hptr⟩

end Flow

section Maps

variable (m : NatMaps) (hm : m.Sound)

include hm

theorem getRewrite_sound (c : Connection) :
    getRewrite m.connections c = some (m.rule (connectionToU128 c)) := by
  rcases hm.connections with ⟨entries, heq⟩
  have hkey : c.key.take connectionsDef.keySize = c.key :=
    List.take_of_length_le (by rw [Connection.key, length_toLE]; decide)
  have htype : connectionsDef.type = mapTypeHash := rfl
  simp only [getRewrite, bpfMapLookupElem, heq, if_pos htype, hkey, Option.map_some, NatMaps.rule]
  rfl

/-- An insertion sets the rule of one number. -/
theorem insertRewrite_sound (c : Connection) (r : Rewrite) :
    ∃ connections, insertRewrite m.connections c r = some connections ∧
      NatMaps.Sound ⟨connections, m.nextPort⟩ ∧
      ∀ k, k < 2 ^ 128 → NatMaps.rule ⟨connections, m.nextPort⟩ k
        = if k = connectionToU128 c then some r else m.rule k := by
  rcases hm.connections with ⟨entries, heq⟩
  have hkey : c.key.take connectionsDef.keySize = c.key :=
    List.take_of_length_le (by rw [Connection.key, length_toLE]; decide)
  have hvalue : r.encode.take connectionsDef.valueSize = r.encode :=
    List.take_of_length_le (by
      simp only [Rewrite.encode, List.length_append, length_toLE]
      decide)
  have htype : connectionsDef.type = mapTypeHash := rfl
  refine ⟨⟨connectionsDef, .hash (insertEntry entries c.key r.encode)⟩, ?_, ⟨⟨_, rfl⟩, hm.nextPort⟩,
    ?_⟩
  · simp only [insertRewrite, bpfMapUpdateElem, heq, if_pos htype, hkey, hvalue]
  · intro k hk
    simp only [NatMaps.rule, heq, lookup_insertEntry, Connection.key]
    by_cases hsame : k = connectionToU128 c
    · rw [if_pos hsame, if_pos (by rw [hsame]), Option.map_some, decode_encode]
    · rw [if_neg hsame, if_neg]
      intro hbytes
      exact hsame ((key_inj k _ hk (connectionToU128_lt c)).mp hbytes)

omit hm in
/-- The map of the counter has one slot, which is the whole block. -/
theorem lookup_nextPort (block : Bytes) (hlen : block.length = 4) :
    bpfMapLookupElem ⟨nextPortDef, .array block⟩ (toLE 4 0) = some (some block) := by
  have hoff : arrayOffset ⟨nextPortDef, .array block⟩ (toLE 4 0) = 0 := by rfl
  have htype : ¬ nextPortDef.type = mapTypeHash := by decide
  have htype' : nextPortDef.type = mapTypeArray := rfl
  have hsize : nextPortDef.valueSize = 4 := rfl
  simp only [bpfMapLookupElem, if_neg htype, if_pos htype', hoff, hsize, hlen, Nat.zero_add,
    le_refl, if_true, List.drop_zero]
  rw [List.take_of_length_le (by omega)]

omit hm in
theorem write_nextPort (block : Bytes) (hlen : block.length = 4) (v : Nat) :
    writeThrough ⟨nextPortDef, .array block⟩ (toLE 4 0) 0 (toLE 4 v)
      = some ⟨nextPortDef, .array (toLE 4 v)⟩ := by
  have hoff : arrayOffset ⟨nextPortDef, .array block⟩ (toLE 4 0) = 0 := by rfl
  simp only [writeThrough, hoff, length_toLE, hlen, Nat.zero_add, Nat.add_zero, le_refl, if_true,
    overwrite, List.take_zero, List.nil_append]
  rw [List.drop_of_length_le (by rw [hlen]), List.append_nil]

/-- The allocator hands out the port of the counter and moves it on. -/
theorem nextPort_sound :
    ∃ counter, nextPort m.nextPort = some (some (m.port.toUInt16, counter)) ∧
      NatMaps.Sound ⟨m.connections, counter⟩ ∧
      NatMaps.counter ⟨m.connections, counter⟩ = advancePort m.port := by
  rcases hm.nextPort with ⟨block, heq, hlen⟩
  have hlookup := lookup_nextPort block hlen
  have hwrite := write_nextPort block hlen
  have hcounter : m.counter = Bytes.u32 block 0 := by
    simp only [NatMaps.counter, heq]
  have hport : m.port = if Bytes.u32 block 0 = 0 then portStart else Bytes.u32 block 0 := by
    rw [NatMaps.port, hcounter]
  refine ⟨⟨nextPortDef, .array (toLE 4 (advancePort m.port).toNat)⟩, ?_,
    ⟨hm.connections, ⟨_, rfl, length_toLE 4 _⟩⟩, ?_⟩
  · simp only [nextPort, heq, hlookup, hwrite, ← hport, Option.map_some]
  · have hread := ofNat_readLE_u32 (advancePort m.port) []
    rw [List.append_nil] at hread
    simp only [NatMaps.counter, Bytes.u32, hread]

end Maps

/-- A packet after a rule was applied to it. -/
def rewrittenBy (p : Bytes) (r : Rewrite) : Bytes :=
  setPorts (setAddresses p r) r

/-- What a run of the program does: the maps, the packet and the output
    afterwards. -/
inductive Classified (m : NatMaps) (ctx : BpfContext) : NatMaps → Bytes → UInt32 → Prop where
  | noFlow (hc : connectionOf ctx = none) : Classified m ctx m ctx.packet 0xffffffff
  | ruled (c : Connection) (r : Rewrite) (hc : connectionOf ctx = some c)
      (hrule : m.rule (connectionToU128 c) = some r) :
      Classified m ctx m (rewrittenBy ctx.packet r) (r.output % natOutputs)
  | fromOutside (c : Connection) (hc : connectionOf ctx = some c)
      (hrule : m.rule (connectionToU128 c) = none) (hport : ctx.port = 1) :
      Classified m ctx m ctx.packet fOutput
  | newFlow (c : Connection) (m' : NatMaps) (hc : connectionOf ctx = some c)
      (hrule : m.rule (connectionToU128 c) = none) (hport : ctx.port = 0)
      (hcounter : m'.counter = advancePort m.port)
      (hrules : ∀ k, k < 2 ^ 128 → m'.rule k
        = if k = connectionToU128 c then some (outgoingRewrite c m.port.toUInt16) else m.rule k) :
      Classified m ctx m' (rewrittenBy ctx.packet (outgoingRewrite c m.port.toUInt16)) fOutput
  | elsewhere (c : Connection) (hc : connectionOf ctx = some c)
      (hrule : m.rule (connectionToU128 c) = none) (hport : ctx.port ≠ 1 ∧ ctx.port ≠ 0) :
      Classified m ctx m ctx.packet 0xffffffff

/-- The rule a packet meets: the one in the table, or that of a new flow. -/
def appliedRule (m : NatMaps) (ctx : BpfContext) : Option Rewrite :=
  match connectionOf ctx with
  | none => none
  | some c =>
    match m.rule (connectionToU128 c) with
    | some r => some r
    | none => if ctx.port = 0 then some (outgoingRewrite c m.port.toUInt16) else none

section Classify

variable (m : NatMaps) (ctx : BpfContext) (hm : m.Sound)

include hm

theorem classifyNew_sound (c : Connection) (hc : connectionOf ctx = some c) (hport : ctx.port = 0) :
    ∃ m', classifyNew m ctx c = some ⟨m',
        rewrittenBy ctx.packet (outgoingRewrite c m.port.toUInt16), some fOutput⟩ ∧ m'.Sound ∧
      m'.counter = advancePort m.port ∧
      ∀ k, k < 2 ^ 128 → m'.rule k
        = if k = connectionToU128 c then some (outgoingRewrite c m.port.toUInt16) else
          m.rule k := by
  rcases nextPort_sound m hm with ⟨counter, hnext, hm₁, hcounter⟩
  -- The same rule is inserted under the same key, twice.
  rcases insertRewrite_sound ⟨m.connections, counter⟩ hm₁ c (outgoingRewrite c m.port.toUInt16) with
    ⟨once, honce, hm₂, hrules₁⟩
  rcases insertRewrite_sound ⟨once, counter⟩ hm₂ c (outgoingRewrite c m.port.toUInt16) with
    ⟨twice, htwice, hm₃, hrules₂⟩
  refine ⟨⟨twice, counter⟩, ?_, hm₃, hcounter, ?_⟩
  · simp only [classifyNew, hnext, honce, htwice, rewritten, applyRewrite_flow ctx c _ hc, if_true,
      hport]
    rfl
  · intro k hk
    rw [hrules₂ k hk, hrules₁ k hk]
    by_cases hsame : k = connectionToU128 c
    · rw [if_pos hsame, if_pos hsame]
    · rw [if_neg hsame, if_neg hsame, if_neg hsame]
      rfl

/-- On maps of the declared kinds the program always ends, in one of the five
    ways. -/
theorem classify_cases : ∃ m' p output, natMain m ctx = some (m', p, output) ∧ m'.Sound ∧
    Classified m ctx m' p output := by
  unfold natMain tryClassify
  cases hc : connectionOf ctx with
  | none => exact ⟨m, ctx.packet, 0xffffffff, rfl, hm, .noFlow hc⟩
  | some c =>
      simp only [getRewrite_sound m hm c]
      cases hrule : m.rule (connectionToU128 c) with
      | some r =>
          refine ⟨m, rewrittenBy ctx.packet r, r.output % natOutputs, ?_, hm, .ruled c r hc hrule⟩
          simp only [rewritten, applyRewrite_flow ctx c r hc, if_true, Option.map_some,
            Option.getD_some]
          rfl
      | none =>
          simp only []
          by_cases hone : ctx.port = 1
          · rw [if_pos hone]
            exact ⟨m, ctx.packet, fOutput, rfl, hm, .fromOutside c hc hrule hone⟩
          · rw [if_neg hone]
            by_cases hzero : ctx.port = 0
            · rw [if_pos hzero]
              rcases classifyNew_sound m ctx hm c hc hzero with ⟨m', hnew, hm', hcounter, hrules⟩
              refine ⟨m', _, fOutput, ?_, hm', .newFlow c m' hc hrule hzero hcounter hrules⟩
              rw [hnew]
              rfl
            · rw [if_neg hzero]
              exact ⟨m, ctx.packet, 0xffffffff, rfl, hm, .elsewhere c hc hrule ⟨hone, hzero⟩⟩

theorem natMain_classified (m' : NatMaps) (p : Bytes) (output : UInt32)
    (h : natMain m ctx = some (m', p, output)) : m'.Sound ∧ Classified m ctx m' p output := by
  rcases classify_cases m ctx hm with ⟨m₁, p₁, output₁, hmain, hsound, hcases⟩
  rw [hmain, Option.some.injEq, Prod.mk.injEq, Prod.mk.injEq] at h
  rcases h with ⟨h₁, h₂, h₃⟩
  rw [← h₁, ← h₂, ← h₃]
  exact ⟨hsound, hcases⟩

/-- The packet leaves as it came, or rewritten by the rule for it. -/
theorem natMain_packet (m' : NatMaps) (p : Bytes) (output : UInt32)
    (h : natMain m ctx = some (m', p, output)) :
    p = match appliedRule m ctx with
      | none => ctx.packet
      | some r => rewrittenBy ctx.packet r := by
  rcases natMain_classified m ctx hm m' p output h with ⟨-, hcases⟩
  unfold appliedRule
  cases hcases with
  | noFlow hc => simp only [hc]
  | ruled c r hc hrule => simp only [hc, hrule]
  | fromOutside c hc hrule hport =>
      have hne : ¬ (1 : UInt32) = 0 := by decide
      simp only [hc, hrule, hport, if_neg hne]
  | newFlow c m' hc hrule hport hcounter hrules => simp only [hc, hrule, if_pos hport]
  | elsewhere c hc hrule hport => simp only [hc, hrule, if_neg hport.2]

end Classify

/-- One packet, as a step of the maps. -/
def natStep (m : NatMaps) (ctx : BpfContext) : Option NatMaps :=
  (natMain m ctx).map Prod.fst

/-- The rule under a number is the one there was, or sends to the outside. -/
def RuleKept (m : NatMaps) (k : Nat) (m' : NatMaps) : Prop :=
  match m.rule k with
  | some r => m'.rule k = some r
  | none => ∀ r, m'.rule k = some r → r.output = fOutput

theorem RuleKept.refl (m : NatMaps) (k : Nat) : RuleKept m k m := by
  unfold RuleKept
  split
  · rename_i r hr
    exact hr
  · rename_i hr
    intro r hr'
    rw [hr] at hr'
    exact absurd hr' (by simp only [reduceCtorEq, not_false_eq_true])

/-- A run of the program adds at most the rule of one new flow. -/
theorem rule_kept (m m' m'' : NatMaps) (ctx : BpfContext) (p : Bytes) (output : UInt32) (k : Nat)
    (hk : k < 2 ^ 128) (hkept : RuleKept m k m') (h : Classified m' ctx m'' p output) :
    RuleKept m k m'' := by
  cases h with
  | noFlow hc => exact hkept
  | ruled c r hc hrule => exact hkept
  | fromOutside c hc hrule hport => exact hkept
  | elsewhere c hc hrule hport => exact hkept
  | newFlow c _ hc hrule hport hcounter hrules =>
      unfold RuleKept at hkept ⊢
      by_cases hsame : k = connectionToU128 c
      -- The number was free, so nothing is replaced.
      · rw [← hsame] at hrule
        split
        · rename_i r hr
          rw [hr, hrule] at hkept
          exact absurd hkept (by simp only [reduceCtorEq, not_false_eq_true])
        · intro r hr
          rw [hrules k hk, if_pos hsame, Option.some.injEq] at hr
          rw [← hr]
          rfl
      · rw [hrules k hk, if_neg hsame]
        exact hkept

theorem natStep_some (m m' : NatMaps) (ctx : BpfContext) (h : natStep m ctx = some m') :
    ∃ p output, natMain m ctx = some (m', p, output) := by
  rcases Option.map_eq_some_iff.mp h with ⟨⟨m₁, p, output⟩, hmain, hfst⟩
  exact ⟨p, output, by rw [hmain, ← hfst]⟩

/-- Rules stay through a whole run, and new ones send to the outside. -/
theorem run_rule_kept (m₀ m m' : NatMaps) (ctxs : List BpfContext) (k : Nat) (hm : m.Sound)
    (hk : k < 2 ^ 128) (hkept : RuleKept m₀ k m) (h : Steps.run natStep m ctxs = some m') :
    m'.Sound ∧ RuleKept m₀ k m' := by
  refine Steps.run_invariant natStep (fun m' => m'.Sound ∧ RuleKept m₀ k m') ?_ ctxs m m'
    ⟨hm, hkept⟩ h
  rintro m₁ ctx m₂ ⟨hm₁, hkept₁⟩ hstep
  rcases natStep_some m₁ m₂ ctx hstep with ⟨p, output, hmain⟩
  rcases natMain_classified m₁ ctx hm₁ m₂ p output hmain with ⟨hm₂, hcases⟩
  exact ⟨hm₂, rule_kept m₀ m₁ m₂ ctx p output k hk hkept₁ hcases⟩

/-- A UDP packet of a flow, without data. -/
def udpPacket (srcIp : UInt32) (srcPort : UInt16) (dstIp : UInt32) (dstPort : UInt16) : Bytes :=
  [0x45, 0, 0, 28, 0, 0, 0, 0, 64, 17, 0, 0] ++ (toLE 4 srcIp.toNat ++ (toLE 4 dstIp.toNat ++
    (toLE 2 (fromBe srcPort).toNat ++ (toLE 2 (fromBe dstPort).toNat ++ [0, 8, 0, 0]))))

theorem connectionOf_udpPacket (srcIp : UInt32) (srcPort : UInt16) (dstIp : UInt32)
    (dstPort : UInt16) (port : UInt32) :
    connectionOf ⟨udpPacket srcIp srcPort dstIp dstPort, port⟩
      = some ⟨srcIp, srcPort, dstIp, dstPort, ipProtoUdp⟩ := by
  have hproto : Bytes.u8 (udpPacket srcIp srcPort dstIp dstPort) 9 = ipProtoUdp := by
    rw [Bytes.u8, udpPacket, readLE_append_left _ _ _ _ (by decide)]
    rfl
  -- Behind the first twelve bytes the fields follow one another.
  have hfield : ∀ off w, readLE (udpPacket srcIp srcPort dstIp dstPort) (12 + off) w
      = readLE (toLE 4 srcIp.toNat ++ (toLE 4 dstIp.toNat ++ (toLE 2 (fromBe srcPort).toNat ++
        (toLE 2 (fromBe dstPort).toNat ++ [0, 8, 0, 0])))) off w := by
    intro off w
    rw [udpPacket, readLE_append_right _ _ _ _ (Nat.le_add_right 12 off)]
    exact congrArg (readLE _ · w) (Nat.add_sub_cancel_left 12 off)
  have hsrc : Bytes.u32 (udpPacket srcIp srcPort dstIp dstPort) 12 = srcIp := by
    rw [Bytes.u32, hfield 0, ofNat_readLE_u32]
  have hdst : Bytes.u32 (udpPacket srcIp srcPort dstIp dstPort) 16 = dstIp := by
    rw [Bytes.u32, hfield 4, readLE_toLE_skip 4 _ _ 0, ofNat_readLE_u32]
  have hsport : Bytes.u16 (udpPacket srcIp srcPort dstIp dstPort) 20 = fromBe srcPort := by
    rw [Bytes.u16, hfield 8, readLE_toLE_skip 4 _ _ 4, readLE_toLE_skip 4 _ _ 0, ofNat_readLE_u16]
  have hdport : Bytes.u16 (udpPacket srcIp srcPort dstIp dstPort) 22 = fromBe dstPort := by
    rw [Bytes.u16, hfield 10, readLE_toLE_skip 4 _ _ 6, readLE_toLE_skip 4 _ _ 2,
      readLE_toLE_skip 2 _ _ 0, ofNat_readLE_u16]
  have hlen : (udpPacket srcIp srcPort dstIp dstPort).length = 28 := by
    simp only [udpPacket, List.length_append, length_toLE, List.length_cons, List.length_nil]
  rw [connectionOf_of_headers _ _ (.inr ⟨hproto, by rw [hlen]⟩), hproto]
  simp only [packetConnection, hsrc, hdst, ipv4HdrLen, hsport, hdport, fromBe_fromBe]

end UniBPF
