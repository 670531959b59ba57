import UniBPF.Theory.NatTable

/-!
# Replies Through the Translator

A flow from the inside leaves with the outer address and a port of its own,
and what comes back to that port should reach the host that sent it. The
translator computes the rule for that and then inserts the rule of the flow a
second time, so the table never gets one for replies.

The answer is then in the table as it was before the flow came. A reply is
turned back exactly when there was a rule for it already, and the rules of
the program itself are none: they all send to the outside.

The flow of a packet is here what `try_classify` takes for it: the ports are
those at offset 20, also where the header has options and the ports are
further on.

## Main definitions

* `Connection.reverse`: The flow of the replies.
* `Answers`: A rule that turns the replies of a flow back.
* `Translated`: A reply is turned back and sent inside.

## Theorems

* `classified_new`: What a new flow leaves with.
* `replies_translated_iff`: A reply is turned back exactly when the table had
  a rule for it before the flow came.
-/

namespace UniBPF

/-- The flow of the replies. -/
def Connection.reverse (c : Connection) : Connection :=
  ⟨c.dstIp, c.dstPort, c.srcIp, c.srcPort, c.protocol⟩

/-- The rule turns replies of the flow back and sends them inside. -/
structure Answers (r : Rewrite) (c : Connection) : Prop where
  srcIp : r.srcIp = c.dstIp
  srcPort : r.srcPort = c.dstPort
  dstIp : r.dstIp = c.srcIp
  dstPort : r.dstPort = c.srcPort
  output : r.output % natOutputs = rOutput

/-- The reply comes out as a packet from the other end to the host of the flow,
    on the output to the inside. -/
def Translated (m : NatMaps) (reply : BpfContext) (c : Connection) : Prop :=
  ∃ m' p, natMain m reply = some (m', p, rOutput) ∧ connectionOf ⟨p, rOutput⟩ = some c.reverse

/-- What a new flow leaves with. -/
theorem classified_new (m m' : NatMaps) (ctx : BpfContext) (c s : Connection) (p : Bytes)
    (output port : UInt32) (hc : connectionOf ctx = some c) (hport : ctx.port = 0)
    (hnew : m.rule (connectionToU128 c) = none) (h : Classified m ctx m' p output)
    (hs : connectionOf ⟨p, port⟩ = some s) :
    s = ⟨devExIp, m.port.toUInt16, c.dstIp, c.dstPort, c.protocol⟩ := by
  cases h with
  | noFlow hnone =>
      rw [hc] at hnone
      exact absurd hnone (by simp only [reduceCtorEq, not_false_eq_true])
  | ruled c' r hc' hrule =>
      rw [hc, Option.some.injEq] at hc'
      rw [← hc', hnew] at hrule
      exact absurd hrule (by simp only [reduceCtorEq, not_false_eq_true])
  | fromOutside c' hc' hrule hone =>
      rw [hport] at hone
      exact absurd hone (by decide)
  | elsewhere c' hc' hrule hother => exact absurd hport hother.2
  | newFlow c' _ hc' hrule hzero hcounter hrules =>
      rw [hc, Option.some.injEq] at hc'
      rw [← hc', rewrittenBy, connectionOf_rewrite ctx c _ port hc, Option.some.injEq] at hs
      exact hs.symm

/-- A reply is turned back by a rule that answers, and by nothing else. -/
theorem translated_iff (m : NatMaps) (reply : BpfContext) (c d : Connection) (hm : m.Sound)
    (hreply : connectionOf reply = some d) (hport : reply.port = 1)
    (hprotocol : d.protocol = c.protocol) :
    Translated m reply c ↔ ∃ r, m.rule (connectionToU128 d) = some r ∧ Answers r c := by
  have hresult : ∀ r port, connectionOf ⟨rewrittenBy reply.packet r, port⟩
      = some ⟨r.srcIp, r.srcPort, r.dstIp, r.dstPort, c.protocol⟩ := by
    intro r port
    rw [rewrittenBy, connectionOf_rewrite reply d r port hreply, hprotocol]
  constructor
  · rintro ⟨m', p, hmain, hp⟩
    rcases natMain_classified m reply hm m' p rOutput hmain with ⟨-, hcases⟩
    -- Only a rule sends to the output of the inside.
    generalize houtput : rOutput = output at hcases
    cases hcases with
    | noFlow hnone =>
        rw [hreply] at hnone
        exact absurd hnone (by simp only [reduceCtorEq, not_false_eq_true])
    | fromOutside c' hc' hrule hone => exact absurd houtput (by decide)
    | elsewhere c' hc' hrule hother => exact absurd hport hother.1
    | newFlow c' _ hc' hrule hzero hcounter hrules => exact absurd houtput (by decide)
    | ruled c' r hc' hrule =>
        rw [hreply, Option.some.injEq] at hc'
        rw [← hc'] at hrule
        rw [hresult, Option.some.injEq, Connection.reverse, Connection.mk.injEq] at hp
        rcases hp with ⟨hsrcIp, hsrcPort, hdstIp, hdstPort, -⟩
        exact ⟨r, hrule, hsrcIp, hsrcPort, hdstIp, hdstPort, houtput.symm⟩
  · rintro ⟨r, hrule, hanswers⟩
    -- There is a rule for the number of the reply, so it is the case that is taken.
    rcases classify_cases m reply hm with ⟨m', p, output, hmain, -, hcases⟩
    cases hcases with
    | noFlow hnone =>
        rw [hreply] at hnone
        exact absurd hnone (by simp only [reduceCtorEq, not_false_eq_true])
    | fromOutside c' hc' hnone hone =>
        rw [hreply, Option.some.injEq] at hc'
        rw [← hc', hrule] at hnone
        exact absurd hnone (by simp only [reduceCtorEq, not_false_eq_true])
    | elsewhere c' hc' hnone hother => exact absurd hport hother.1
    | newFlow c' _ hc' hnone hzero hcounter hrules =>
        rw [hport] at hzero
        exact absurd hzero (by decide)
    | ruled c' r' hc' hrule' =>
        rw [hreply, Option.some.injEq] at hc'
        rw [← hc', hrule, Option.some.injEq] at hrule'
        rw [← hrule', hanswers.output] at hmain
        refine ⟨m, _, hmain, ?_⟩
        rw [hresult, hanswers.srcIp, hanswers.srcPort, hanswers.dstIp, hanswers.dstPort]
        rfl

/-- After a new flow has left and whatever packets came then, its replies are
    turned back exactly when the table had a rule for them before the flow
    came. -/
theorem replies_translated_iff (m m₁ m₂ : NatMaps) (out reply : BpfContext) (c s : Connection)
    (sent : Bytes) (output : UInt32) (between : List BpfContext) (hm : m.Sound)
    (hport : out.port = 0) (hc : connectionOf out = some c)
    (hnew : m.rule (connectionToU128 c) = none) (hout : natMain m out = some (m₁, sent, output))
    (hs : connectionOf ⟨sent, output⟩ = some s)
    (hbetween : Steps.run natStep m₁ between = some m₂) (hreplyPort : reply.port = 1)
    (hreply : connectionOf reply = some s.reverse) :
    Translated m₂ reply c ↔
      ∃ r, m.rule (connectionToU128 s.reverse) = some r ∧ Answers r c := by
  rcases natMain_classified m out hm m₁ sent output hout with ⟨hm₁, hcases⟩
  have hsent := classified_new m m₁ out c s sent output output hc hport hnew hcases hs
  have hkept := rule_kept m m m₁ out sent output _ (connectionToU128_lt s.reverse) (.refl m _)
    hcases
  rcases run_rule_kept m m₁ m₂ between _ hm₁ (connectionToU128_lt s.reverse) hkept hbetween with
    ⟨hm₂, hkept₂⟩
  rw [translated_iff m₂ reply c s.reverse hm₂ hreply hreplyPort (by rw [hsent]; rfl)]
  unfold RuleKept at hkept₂
  constructor
  · rintro ⟨r, hrule, hanswers⟩
    cases hold : m.rule (connectionToU128 s.reverse) with
    | some r' =>
        rw [hold] at hkept₂
        rw [hkept₂, Option.some.injEq] at hrule
        exact ⟨r, by rw [hrule], hanswers⟩
    | none =>
        -- A rule of the program sends to the outside.
        rw [hold] at hkept₂
        have hoff := hanswers.output
        rw [hkept₂ r hrule] at hoff
        exact absurd hoff (by decide)
  · rintro ⟨r, hrule, hanswers⟩
    rw [hrule] at hkept₂
    exact ⟨r, hkept₂, hanswers⟩

/-- 10.0.0.1:1000 asks 8.8.8.8:53. -/
def sampleQuery : BpfContext := ⟨udpPacket 0x0100000a 1000 0x08080808 53, 0⟩

/-- 8.8.8.8:53 answers 172.44.0.3:50000. -/
def sampleReply : BpfContext := ⟨udpPacket 0x08080808 53 devExIp 50000, 1⟩

/-- A table that has a rule for the reply. -/
def replyingMaps : NatMaps :=
  { NatMaps.new with connections := ⟨connectionsDef, .hash
    [(Connection.key ⟨0x08080808, 53, devExIp, 50000, ipProtoUdp⟩,
      Rewrite.encode ⟨0x08080808, 53, 0x0100000a, 1000, rOutput⟩)]⟩ }

theorem reply_translated_with_rule :
    ∃ m₁ sent output m₂, natMain replyingMaps sampleQuery = some (m₁, sent, output) ∧
      Steps.run natStep m₁ [⟨udpPacket 0x0200000a 1000 0x08080808 53, 0⟩] = some m₂ ∧
      Translated m₂ sampleReply ⟨0x0100000a, 1000, 0x08080808, 53, ipProtoUdp⟩ := by
  have hm : replyingMaps.Sound := ⟨⟨_, rfl⟩, NatMaps.new_sound.nextPort⟩
  have hrun : (natMain replyingMaps sampleQuery).map (fun r => connectionOf ⟨r.2.1, r.2.2⟩)
      = some (some ⟨devExIp, 50000, 0x08080808, 53, ipProtoUdp⟩) := by decide +kernel
  rcases Option.map_eq_some_iff.mp hrun with ⟨⟨m₁, sent, output⟩, hout, hs⟩
  rcases natMain_classified _ _ hm m₁ sent output hout with ⟨hm₁, -⟩
  rcases classify_cases m₁ ⟨udpPacket 0x0200000a 1000 0x08080808 53, 0⟩ hm₁ with
    ⟨m₂, p, output₂, hother, -⟩
  have hbetween : Steps.run natStep m₁ [⟨udpPacket 0x0200000a 1000 0x08080808 53, 0⟩]
      = some m₂ := by
    simp only [Steps.run, natStep, hother, Option.map_some]
  refine ⟨m₁, sent, output, m₂, hout, hbetween, ?_⟩
  refine (replies_translated_iff replyingMaps m₁ m₂ sampleQuery sampleReply _ _ sent output _ hm rfl
    (connectionOf_udpPacket ..) (by decide +kernel) hout hs hbetween rfl
    (connectionOf_udpPacket ..)).mpr ?_
  exact ⟨⟨0x08080808, 53, 0x0100000a, 1000, rOutput⟩, by decide +kernel, rfl, rfl, rfl, rfl, rfl⟩

/-- On the program's own table the answer to the first query is let through
    untouched, on the output to the outside. -/
theorem reply_left_outside :
    ∃ m₁ sent output, natMain NatMaps.new sampleQuery = some (m₁, sent, output) ∧
      connectionOf ⟨sent, output⟩ = some ⟨devExIp, 50000, 0x08080808, 53, ipProtoUdp⟩ ∧
      connectionOf sampleReply
        = some (Connection.reverse ⟨devExIp, 50000, 0x08080808, 53, ipProtoUdp⟩) ∧
      natMain m₁ sampleReply = some (m₁, sampleReply.packet, fOutput) ∧
      ¬ Translated m₁ sampleReply ⟨0x0100000a, 1000, 0x08080808, 53, ipProtoUdp⟩ := by
  have hrun : (natMain NatMaps.new sampleQuery).map (fun r => (connectionOf ⟨r.2.1, r.2.2⟩,
      decide (natMain r.1 sampleReply = some (r.1, sampleReply.packet, fOutput))))
        = some (some ⟨devExIp, 50000, 0x08080808, 53, ipProtoUdp⟩, true) := by decide +kernel
  rcases Option.map_eq_some_iff.mp hrun with ⟨⟨m₁, sent, output⟩, hout, hresults⟩
  rcases Prod.mk.inj hresults with ⟨hs, hreply⟩
  have hlet := of_decide_eq_true hreply
  refine ⟨m₁, sent, output, hout, hs, connectionOf_udpPacket .., hlet, ?_⟩
  rintro ⟨m', p, hmain, -⟩
  rw [hlet, Option.some.injEq, Prod.mk.injEq, Prod.mk.injEq] at hmain
  exact absurd hmain.2.2 (by decide)

end UniBPF
