import UniBPF.Theory.NatTable

/-!
# Numbers of Flows

The table of the translator has one rule under each number, so two flows with
one number share a rule. The parts of a flow are shifted together, and two of
them overlap: the source port is moved up by 80 bits, and of the destination
address, moved up by 64, the upper half lies in the same sixteen bits. What
is left of the two there is their disjunction.

Two flows have one number exactly when they agree on everything else and on
that disjunction (`connectionToU128_eq_iff`). That does not take unusual
flows: one host that talks to 8.8.8.8:53 from the ports 50000 and 50008 has
two.

The flow of a packet is here what `try_classify` takes for it, with the ports
at offset 20 whether the header has options or not.

Who a rule belongs to is not in the table, so it is recorded beside it: a rule
that appears while a packet is handled belongs to the flow of that packet. A
run is then free of mistakes when every packet that is rewritten is rewritten
by a rule of its own flow.

## Main definitions

* `Connection.mixed`: The disjunction.
* `Overlap`: Different flows with one number, by their parts.
* `Owned`, `ownedStep`: The maps with the owners of the rules, and a packet.
* `ByOwnRule`: The rule a packet is rewritten by belongs to its flow.
* `Separate`: The flow of an earlier packet does not meet that of a later one.

## Theorems

* `connectionToU128_eq`: The number as a sum, in which nothing overlaps.
* `connectionToU128_srcIp`: The source address can be read off the number.
* `ownedStep_cases`: What a packet does to the owners.
* `byOwnRule_run`: When a run is free of mistakes.
* `flows_kept_apart_iff`: When flows are kept apart.
-/

namespace UniBPF

/-- Where the source port and the destination address lie over each other. -/
def Connection.mixed (c : Connection) : Nat :=
  c.srcPort.toNat ||| c.dstIp.toNat >>> 16

theorem Connection.mixed_lt (c : Connection) : c.mixed < 2 ^ 16 := by
  have hdst : c.dstIp.toNat < 2 ^ 32 := c.dstIp.toNat_lt
  refine Nat.or_lt_two_pow c.srcPort.toNat_lt ?_
  rw [Nat.shiftRight_eq_div_pow]
  omega

theorem shiftLeft_or_eq_add (a b s : Nat) (hb : b < 2 ^ s) : a <<< s ||| b = a * 2 ^ s + b := by
  rw [← Nat.shiftLeft_add_eq_or_of_lt hb, Nat.shiftLeft_eq]

/-- The number as a sum of parts that do not overlap. -/
theorem connectionToU128_eq (c : Connection) : connectionToU128 c
    = c.srcIp.toNat * 2 ^ 96 + (c.mixed * 2 ^ 80 + (c.dstIp.toNat % 2 ^ 16 * 2 ^ 64 +
      (c.dstPort.toNat * 2 ^ 48 + c.protocol.toNat * 2 ^ 32))) := by
  have hmixed := c.mixed_lt
  have hport : c.dstPort.toNat < 2 ^ 16 := c.dstPort.toNat_lt
  have hproto : c.protocol.toNat < 2 ^ 8 := c.protocol.toNat_lt
  have hlow : c.dstIp.toNat % 2 ^ 16 < 2 ^ 16 := Nat.mod_lt _ (by decide)
  -- The upper half of the destination is as far up as the source port.
  have hdst : c.dstIp.toNat <<< 64
      = (c.dstIp.toNat >>> 16) <<< 80 ||| (c.dstIp.toNat % 2 ^ 16) <<< 64 := by
    rw [shiftLeft_or_eq_add _ _ 80 (shiftLeft_lt_two_pow _ 16 64 80 hlow (by decide)),
      Nat.shiftLeft_eq, Nat.shiftLeft_eq, Nat.shiftRight_eq_div_pow]
    omega
  have hparts : connectionToU128 c = c.srcIp.toNat <<< 96 ||| (c.mixed <<< 80 |||
      ((c.dstIp.toNat % 2 ^ 16) <<< 64 ||| (c.dstPort.toNat <<< 48 |||
        c.protocol.toNat <<< 32))) := by
    rw [connectionToU128, hdst, Connection.mixed, Nat.shiftLeft_or_distrib]
    simp only [Nat.or_assoc]
  rw [hparts, shiftLeft_or_eq_add _ (c.protocol.toNat <<< 32) 48, shiftLeft_or_eq_add _ _ 64,
    shiftLeft_or_eq_add _ _ 80, shiftLeft_or_eq_add _ _ 96, Nat.shiftLeft_eq] <;>
  simp only [Nat.shiftLeft_eq] <;> omega

/-- The source address can be read off the number. -/
theorem connectionToU128_srcIp (c : Connection) : connectionToU128 c >>> 96 = c.srcIp.toNat := by
  have hmixed := c.mixed_lt
  have hport : c.dstPort.toNat < 2 ^ 16 := c.dstPort.toNat_lt
  have hproto : c.protocol.toNat < 2 ^ 8 := c.protocol.toNat_lt
  rw [connectionToU128_eq, Nat.shiftRight_eq_div_pow]
  omega

/-- Different flows with one number: they differ only where the source port
    and the upper half of the destination address make up for each other. -/
structure Overlap (c d : Connection) : Prop where
  srcIp : c.srcIp = d.srcIp
  mixed : c.mixed = d.mixed
  dstLow : c.dstIp.toNat % 2 ^ 16 = d.dstIp.toNat % 2 ^ 16
  dstPort : c.dstPort = d.dstPort
  protocol : c.protocol = d.protocol
  differ : c.srcPort ≠ d.srcPort ∨ c.dstIp ≠ d.dstIp

section Numbers

variable (c d : Connection)

theorem connectionToU128_eq_iff : connectionToU128 c = connectionToU128 d ↔
    c.srcIp = d.srcIp ∧ c.mixed = d.mixed ∧ c.dstIp.toNat % 2 ^ 16 = d.dstIp.toNat % 2 ^ 16 ∧
      c.dstPort = d.dstPort ∧ c.protocol = d.protocol := by
  have hmixed := c.mixed_lt
  have hmixed' := d.mixed_lt
  have hport : c.dstPort.toNat < 2 ^ 16 := c.dstPort.toNat_lt
  have hport' : d.dstPort.toNat < 2 ^ 16 := d.dstPort.toNat_lt
  have hproto : c.protocol.toNat < 2 ^ 8 := c.protocol.toNat_lt
  have hproto' : d.protocol.toNat < 2 ^ 8 := d.protocol.toNat_lt
  rw [connectionToU128_eq, connectionToU128_eq, ← UInt32.toNat_inj, ← UInt16.toNat_inj,
    ← UInt8.toNat_inj]
  constructor
  · intro h
    refine ⟨?_, ?_, ?_, ?_, ?_⟩ <;> omega
  · rintro ⟨hsrc, hmix, hlow, hdport, hprotocol⟩
    rw [hsrc, hmix, hlow, hdport, hprotocol]

/-- Flows have one number when they are the same or overlap. -/
theorem same_number_iff : connectionToU128 c = connectionToU128 d ↔ c = d ∨ Overlap c d := by
  rw [connectionToU128_eq_iff]
  constructor
  · rintro ⟨hsrc, hmix, hlow, hdport, hprotocol⟩
    by_cases hsport : c.srcPort = d.srcPort
    · by_cases hdst : c.dstIp = d.dstIp
      · left
        rcases c with ⟨_, _, _, _, _⟩
        rcases d with ⟨_, _, _, _, _⟩
        simp only [Connection.mk.injEq]
        exact ⟨hsrc, hsport, hdst, hdport, hprotocol⟩
      · exact .inr ⟨hsrc, hmix, hlow, hdport, hprotocol, .inr hdst⟩
    · exact .inr ⟨hsrc, hmix, hlow, hdport, hprotocol, .inl hsport⟩
  · intro h
    rcases h with heq | ho
    · rw [heq]
      exact ⟨rfl, rfl, rfl, rfl, rfl⟩
    · exact ⟨ho.srcIp, ho.mixed, ho.dstLow, ho.dstPort, ho.protocol⟩

theorem Overlap.ne (h : Overlap c d) : c ≠ d := by
  intro heq
  rcases h.differ with hport | hdst
  · exact hport (congrArg Connection.srcPort heq)
  · exact hdst (congrArg Connection.dstIp heq)

/-- Equal numbers give equal flows exactly where nothing overlaps. -/
theorem number_injective_iff :
    (connectionToU128 c = connectionToU128 d → c = d) ↔ ¬ Overlap c d := by
  rw [same_number_iff]
  constructor
  · intro h ho
    exact Overlap.ne c d ho (h (.inr ho))
  · intro hno h
    rcases h with heq | ho
    · exact heq
    · exact absurd ho hno

end Numbers

/-- The maps, and of each rule the flow it was made for. -/
structure Owned where
  maps : NatMaps
  owner : Nat → Option Connection

/-- The owners after a packet: a rule that has appeared belongs to the flow
    of the packet. -/
def newOwner (s : Owned) (m' : NatMaps) (ctx : BpfContext) (k : Nat) : Option Connection :=
  if s.maps.rule k = none ∧ m'.rule k ≠ none then connectionOf ctx else s.owner k

/-- One packet. -/
def ownedStep (s : Owned) (ctx : BpfContext) : Option Owned :=
  (natMain s.maps ctx).map fun out => ⟨out.1, newOwner s out.1 ctx⟩

/-- The program as it is loaded. -/
def Owned.new : Owned := ⟨NatMaps.new, fun _ => none⟩

/-- If a packet is rewritten by a rule of the table, the rule belongs to the
    flow of the packet. -/
def ByOwnRule (s : Owned) (ctx : BpfContext) : Prop :=
  ∀ c r, connectionOf ctx = some c → s.maps.rule (connectionToU128 c) = some r →
    s.owner (connectionToU128 c) = some c

/-- The rule an earlier packet has made is not for a later packet of another
    flow. -/
def Separate (a b : BpfContext) : Prop :=
  a.port = 0 → ∀ c d, connectionOf a = some c → connectionOf b = some d → ¬ Overlap c d

section Owners

/-- What a packet does to the owners: nothing, or the flow of a packet from
    the inside gets a rule where there was none. -/
theorem ownedStep_cases (s s' : Owned) (ctx : BpfContext) (hs : s.maps.Sound)
    (h : ownedStep s ctx = some s') : s'.maps.Sound ∧
    ((s'.maps = s.maps ∧ (∀ k, s'.owner k = s.owner k) ∧
        (ctx.port = 0 → ∀ c, connectionOf ctx = some c → s.maps.rule (connectionToU128 c) ≠ none)) ∨
      (∃ c, connectionOf ctx = some c ∧ ctx.port = 0 ∧ s.maps.rule (connectionToU128 c) = none ∧
        ∀ k, k < 2 ^ 128 →
          (s'.maps.rule k = none ↔ s.maps.rule k = none ∧ k ≠ connectionToU128 c) ∧
          s'.owner k = if k = connectionToU128 c then some c else s.owner k)) := by
  rcases Option.map_eq_some_iff.mp h with ⟨⟨m', p, output⟩, hmain, hs'⟩
  rcases natMain_classified s.maps ctx hs m' p output hmain with ⟨hm', hcases⟩
  rw [← hs']
  -- No rule appears where the maps stay as they are.
  have hkept : ∀ k, newOwner s s.maps ctx k = s.owner k := by
    intro k
    exact if_neg (fun hnew => hnew.2 hnew.1)
  refine ⟨hm', ?_⟩
  cases hcases with
  | noFlow hc =>
      refine .inl ⟨rfl, hkept, ?_⟩
      intro _ c hc'
      rw [hc] at hc'
      exact absurd hc' (by simp only [reduceCtorEq, not_false_eq_true])
  | ruled c r hc hrule =>
      refine .inl ⟨rfl, hkept, ?_⟩
      intro _ c' hc' hnone
      rw [hc, Option.some.injEq] at hc'
      rw [← hc', hrule] at hnone
      exact absurd hnone (by simp only [reduceCtorEq, not_false_eq_true])
  | fromOutside c hc hrule hport =>
      refine .inl ⟨rfl, hkept, ?_⟩
      intro hzero
      rw [hport] at hzero
      exact absurd hzero (by decide)
  | elsewhere c hc hrule hport => exact .inl ⟨rfl, hkept, fun hzero => absurd hzero hport.2⟩
  | newFlow c _ hc hrule hport hcounter hrules =>
      refine .inr ⟨c, hc, hport, hrule, ?_⟩
      intro k hk
      simp only [newOwner, hrules k hk, hc]
      by_cases hsame : k = connectionToU128 c
      · simp only [hsame, hrule, if_true, reduceCtorEq, ne_eq, not_true_eq_false, not_false_eq_true,
          and_false, and_self]
      · have hold : ¬ (s.maps.rule k = none ∧ s.maps.rule k ≠ none) := fun hnew => hnew.2 hnew.1
        rw [if_neg hsame, if_neg hsame, if_neg hold]
        exact ⟨⟨fun hfree => ⟨hfree, hsame⟩, fun hfree => hfree.1⟩, rfl⟩

/-- The rules are those of the flows in `F`, each under its own number. -/
structure OwnedBy (F : Connection → Prop) (s : Owned) : Prop where
  sound : s.maps.Sound
  rule_none : ∀ k, k < 2 ^ 128 → (s.maps.rule k = none ↔ s.owner k = none)
  member : ∀ k c, k < 2 ^ 128 → s.owner k = some c → F c ∧ connectionToU128 c = k
  own : ∀ c, F c → s.owner (connectionToU128 c) = some c

theorem ownedBy_new : OwnedBy (fun _ => False) Owned.new where
  sound := NatMaps.new_sound
  rule_none := fun _ _ => ⟨fun _ => rfl, fun _ => rfl⟩
  member := by
    intro k c _ h
    exact absurd h (by simp only [Owned.new, reduceCtorEq, not_false_eq_true])
  own := fun _ h => h.elim

variable (F : Connection → Prop) (s : Owned) (ctx : BpfContext) (hs : OwnedBy F s)

include hs

/-- A packet meets the rule of another flow when their numbers overlap. -/
theorem byOwnRule_iff : ByOwnRule s ctx ↔
    ∀ c d, F c → connectionOf ctx = some d → ¬ Overlap c d := by
  constructor
  · intro hown c d hc hd ho
    have hnumber : connectionToU128 c = connectionToU128 d := (same_number_iff c d).mpr (.inr ho)
    have howner : s.owner (connectionToU128 d) = some c := by
      rw [← hnumber]
      exact hs.own c hc
    cases hrule : s.maps.rule (connectionToU128 d) with
    | none =>
        rw [(hs.rule_none _ (connectionToU128_lt d)).mp hrule] at howner
        exact absurd howner (by simp only [reduceCtorEq, not_false_eq_true])
    | some r =>
        rw [hown d r hd hrule, Option.some.injEq] at howner
        exact Overlap.ne c d ho howner.symm
  · intro hapart d r hd hrule
    cases howner : s.owner (connectionToU128 d) with
    | none =>
        rw [(hs.rule_none _ (connectionToU128_lt d)).mpr howner] at hrule
        exact absurd hrule (by simp only [reduceCtorEq, not_false_eq_true])
    | some c =>
        rcases hs.member _ c (connectionToU128_lt d) howner with ⟨hc, hnumber⟩
        rcases (same_number_iff c d).mp hnumber with heq | ho
        · rw [heq]
        · exact absurd ho (hapart c d hc hd)

/-- A packet that is rewritten by its own rule, or by none, adds at most its
    own flow. -/
theorem ownedBy_step (s' : Owned) (hown : ByOwnRule s ctx) (h : ownedStep s ctx = some s') :
    OwnedBy (fun c => F c ∨ (ctx.port = 0 ∧ connectionOf ctx = some c)) s' := by
  rcases ownedStep_cases s s' ctx hs.sound h with ⟨hsound, hkept | ⟨c, hc, hport, hnone, hnew⟩⟩
  -- No rule was added, so the numbers belong to whom they did.
  · rcases hkept with ⟨hmaps, howner, hruled⟩
    refine ⟨hsound, ?_, ?_, ?_⟩
    · intro k hk
      rw [hmaps, howner k]
      exact hs.rule_none k hk
    · intro k c hk hkc
      rw [howner k] at hkc
      rcases hs.member k c hk hkc with ⟨hc, hnumber⟩
      exact ⟨.inl hc, hnumber⟩
    · intro c hc
      rw [howner]
      rcases hc with hold | ⟨hzero, hflow⟩
      · exact hs.own c hold
      -- The flow had a rule already, which is its own.
      · rcases Option.ne_none_iff_exists'.mp (hruled hzero c hflow) with ⟨r, hr⟩
        exact hown c r hflow hr
  -- A rule was added under a number that was free.
  · have hfree : s.owner (connectionToU128 c) = none :=
      (hs.rule_none _ (connectionToU128_lt c)).mp hnone
    refine ⟨hsound, ?_, ?_, ?_⟩
    · intro k hk
      rw [(hnew k hk).1, (hnew k hk).2, hs.rule_none k hk]
      by_cases hsame : k = connectionToU128 c
      · simp only [hsame, ne_eq, not_true_eq_false, and_false, if_true, reduceCtorEq]
      · simp only [hsame, ne_eq, not_false_eq_true, and_true, if_false]
    · intro k d hk hkd
      rw [(hnew k hk).2] at hkd
      by_cases hsame : k = connectionToU128 c
      · rw [if_pos hsame, Option.some.injEq] at hkd
        rw [← hkd]
        exact ⟨.inr ⟨hport, hc⟩, hsame.symm⟩
      · rw [if_neg hsame] at hkd
        rcases hs.member k d hk hkd with ⟨hd, hnumber⟩
        exact ⟨.inl hd, hnumber⟩
    · intro d hd
      rw [(hnew _ (connectionToU128_lt d)).2]
      rcases hd with hold | ⟨-, hflow⟩
      · rw [if_neg]
        · exact hs.own d hold
        -- The number of an old flow is taken.
        · intro hsame
          have htaken := hs.own d hold
          rw [hsame, hfree] at htaken
          exact absurd htaken (by simp only [reduceCtorEq, not_false_eq_true])
      · rw [hc, Option.some.injEq] at hflow
        rw [hflow, if_pos rfl]

end Owners

/-- A run in which every packet is rewritten by its own rule, from a state
    with the rules of some flows. -/
theorem byOwnRule_run (ctxs : List BpfContext) : ∀ (F : Connection → Prop) (s : Owned),
    OwnedBy F s → (Steps.Along ownedStep ByOwnRule s ctxs ↔
      (∀ c, F c → ∀ b ∈ ctxs, ∀ d, connectionOf b = some d → ¬ Overlap c d) ∧
        ctxs.Pairwise Separate) := by
  induction ctxs with
  | nil =>
      intro F s _
      exact ⟨fun _ => ⟨fun _ _ _ hb => absurd hb List.not_mem_nil, .nil⟩, fun _ => trivial⟩
  | cons a rest ih =>
      intro F s hs
      -- The program answers every packet, so the first step is always taken.
      rcases classify_cases s.maps a hs.sound with ⟨m', p, output, hmain, -, -⟩
      have hstep : ownedStep s a = some ⟨m', newOwner s m' a⟩ := by
        rw [ownedStep, hmain, Option.map_some]
      constructor
      · rintro ⟨hown, hrest⟩
        have hs' := ownedBy_step F s a hs _ hown hstep
        rcases (ih _ _ hs').mp (hrest _ hstep) with ⟨hapart, hpairs⟩
        refine ⟨?_, List.pairwise_cons.mpr ⟨?_, hpairs⟩⟩
        · intro c hc b hb d hd
          rcases List.mem_cons.mp hb with heq | hmem
          · rw [heq] at hd
            exact (byOwnRule_iff F s a hs).mp hown c d hc hd
          · exact hapart c (.inl hc) b hmem d hd
        · intro b hb hzero c d hc hd
          exact hapart c (.inr ⟨hzero, hc⟩) b hb d hd
      · rintro ⟨hapart, hpairs⟩
        rcases List.pairwise_cons.mp hpairs with ⟨hfirst, hrest⟩
        have hown : ByOwnRule s a := (byOwnRule_iff F s a hs).mpr
          (fun c d hc hd => hapart c hc a List.mem_cons_self d hd)
        refine ⟨hown, ?_⟩
        intro s' hs'
        refine (ih _ s' (ownedBy_step F s a hs s' hown hs')).mpr ⟨?_, hrest⟩
        -- After the step there is one flow more to keep apart from.
        intro c hc b hb d hd
        rcases hc with hold | ⟨hzero, hflow⟩
        · exact hapart c hold b (List.mem_cons_of_mem a hb) d hd
        · exact hfirst b hb hzero c d hflow hd

/-- Flows are told apart by their numbers exactly where they do not overlap,
    and a run rewrites every packet by a rule of its own flow exactly when no
    flow that came from the inside overlaps with that of a later packet. -/
theorem flows_kept_apart_iff (c d : Connection) (ctxs : List BpfContext) :
    ((connectionToU128 c = connectionToU128 d → c = d) ↔ ¬ Overlap c d) ∧
      (Steps.Along ownedStep ByOwnRule Owned.new ctxs ↔ ctxs.Pairwise Separate) := by
  refine ⟨number_injective_iff c d, ?_⟩
  rw [byOwnRule_run ctxs _ _ ownedBy_new]
  exact ⟨fun h => h.2, fun h => ⟨fun _ hno => hno.elim, h⟩⟩

/-- One host asks 8.8.8.8 from two ports: the numbers are the same, and the
    second question is rewritten by the rule of the first. -/
theorem two_flows_one_number :
    ¬ ((∀ c d : Connection, (c.protocol = ipProtoTcp ∨ c.protocol = ipProtoUdp) →
        (d.protocol = ipProtoTcp ∨ d.protocol = ipProtoUdp) →
        connectionToU128 c = connectionToU128 d → c = d) ∧
      ∀ ctxs, Steps.Along ownedStep ByOwnRule Owned.new ctxs) ∧
    connectionToU128 ⟨0x02002cac, 50000, 0x08080808, 53, ipProtoUdp⟩
      = connectionToU128 ⟨0x02002cac, 50008, 0x08080808, 53, ipProtoUdp⟩ ∧
    ¬ Steps.Along ownedStep ByOwnRule Owned.new
      [⟨udpPacket 0x02002cac 50000 0x08080808 53, 0⟩,
        ⟨udpPacket 0x02002cac 50008 0x08080808 53, 0⟩] := by
  have hnumber : connectionToU128 ⟨0x02002cac, 50000, 0x08080808, 53, ipProtoUdp⟩
      = connectionToU128 ⟨0x02002cac, 50008, 0x08080808, 53, ipProtoUdp⟩ := rfl
  have hrun : ¬ Steps.Along ownedStep ByOwnRule Owned.new
      [⟨udpPacket 0x02002cac 50000 0x08080808 53, 0⟩,
        ⟨udpPacket 0x02002cac 50008 0x08080808 53, 0⟩] := by
    rw [byOwnRule_run _ _ _ ownedBy_new]
    rintro ⟨-, hpairs⟩
    refine (List.pairwise_cons.mp hpairs).1 _ (List.mem_singleton.mpr rfl) rfl _ _
      (connectionOf_udpPacket ..) (connectionOf_udpPacket ..) ?_
    exact ⟨rfl, rfl, rfl, rfl, rfl, .inl (by decide)⟩
  refine ⟨?_, hnumber, hrun⟩
  rintro ⟨hinj, -⟩
  exact absurd (hinj _ _ (.inr rfl) (.inr rfl) hnumber) (by decide)

end UniBPF
