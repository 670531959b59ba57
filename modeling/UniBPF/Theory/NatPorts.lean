import UniBPF.Lib.FirstSeen
import UniBPF.Theory.NatKeys

/-!
# Ports of the Translator

Two flows to one destination must leave with different ports, or their
replies cannot be told apart. The ports are handed out one after another and
start over after 15535 of them, so a flow has a port to itself only as long
as there are no more flows than that. The table was to hold 1028; nothing
holds it to that, and flows are never forgotten.

The port of a flow can be said outright: the flow that is the `n`-th to
appear, counting from zero and by the numbers of the flows, has the port
`50000 + n % 15535`, for as long as the program runs.

The flow of a packet is here what `try_classify` takes for it, with the ports
at offset 20 whether the header has options or not.

## Main definitions

* `natServe`: A run over packets from the inside.
* `flowKeys`, `ordinal`: The numbers of the flows, and the place of a flow
  among them.
* `Allocated`: The state after some flows have come.
* `PortsUnique`: Flows to one destination leave with different ports.

## Theorems

* `advancePort_toNat`: The port after a port.
* `serve_step`, `serve_run`: The ports of a run.
* `ports_unique_iff`: When the ports are unique.
-/

namespace UniBPF

/-- A run over packets from the inside: the maps at the end, and the packets
    as they leave. -/
def natServe : NatMaps → List Bytes → Option (NatMaps × List Bytes)
  | m, [] => some (m, [])
  | m, p :: ps =>
    match natMain m ⟨p, 0⟩ with
    | none => none
    | some (m', p', _) => (natServe m' ps).map fun rest => (rest.1, p' :: rest.2)

/-- The number of a packet's flow. -/
def flowKey (p : Bytes) : Option Nat :=
  (connectionOf ⟨p, 0⟩).map connectionToU128

def flowKeys (packets : List Bytes) : List Nat :=
  packets.filterMap flowKey

/-- How many flows appear before this one does. -/
def ordinal (packets : List Bytes) (c : Connection) : Nat :=
  (FirstSeen.order [] (flowKeys packets)).idxOf (connectionToU128 c)

/-- Some packet is of this flow. -/
def HasFlow (packets : List Bytes) (c : Connection) : Prop :=
  ∃ p ∈ packets, connectionOf ⟨p, 0⟩ = some c

/-- The flows go to one destination, by one protocol. -/
structure SameTarget (c d : Connection) : Prop where
  protocol : c.protocol = d.protocol
  dstIp : c.dstIp = d.dstIp
  dstPort : c.dstPort = d.dstPort

/-- A packet of the flow leaves with this source port. -/
def LeavesWith (packets sent : List Bytes) (c : Connection) (port : UInt16) : Prop :=
  ∃ (i : Nat) (p p' : Bytes) (s : Connection), packets[i]? = some p ∧
    connectionOf ⟨p, 0⟩ = some c ∧ sent[i]? = some p' ∧ connectionOf ⟨p', 0⟩ = some s ∧
    s.srcPort = port

/-- Flows with numbers of their own that go to one destination and are in the
    table leave with different ports. -/
def PortsUnique (packets : List Bytes) (m : NatMaps) (sent : List Bytes) : Prop :=
  ∀ c d x y, LeavesWith packets sent c x → LeavesWith packets sent d y → SameTarget c d →
    connectionToU128 c ≠ connectionToU128 d → m.rule (connectionToU128 c) ≠ none →
    m.rule (connectionToU128 d) ≠ none → x ≠ y

/-- How many ports there are. -/
def portCount : Nat := 15535

/-- The allocator goes around. -/
theorem advancePort_toNat (port : UInt32) (k : Nat) (hk : k < portCount)
    (h : port.toNat = 50000 + k) : (advancePort port).toNat = 50000 + (k + 1) % portCount := by
  rw [portCount] at hk
  have hsub : (port - portStart).toNat = k := by
    rw [UInt32.toNat_sub_of_le _ _ (by rw [UInt32.le_iff_toNat_le, h]; exact Nat.le_add_right _ _),
      h]
    exact Nat.add_sub_cancel_left 50000 k
  have hnext : (port - portStart + 1).toNat = k + 1 := by
    rw [UInt32.toNat_add, hsub]
    exact Nat.mod_eq_of_lt (by simp only [UInt32.reduceToNat]; omega)
  have hmod : ((port - portStart + 1) % (portEnd - portStart)).toNat = (k + 1) % portCount := by
    rw [UInt32.toNat_mod, hnext]
    rfl
  have hlt : (k + 1) % portCount < portCount := Nat.mod_lt _ (by decide)
  rw [portCount] at hmod hlt ⊢
  rw [advancePort, UInt32.toNat_add, hmod, Nat.add_comm]
  exact Nat.mod_eq_of_lt (by simp only [portStart, UInt32.reduceToNat]; omega)

/-- The port of a counter that was moved on. The counter has been set, so it
    is the port. -/
theorem port_advanced (m m' : NatMaps) (k : Nat) (h : m.port.toNat = 50000 + k % portCount)
    (hcounter : m'.counter = advancePort m.port) : m'.port.toNat = 50000 + (k + 1) % portCount := by
  have hnext := advancePort_toNat m.port (k % portCount) (Nat.mod_lt _ (by decide)) h
  rw [Nat.mod_add_mod] at hnext
  have hset : ¬ m'.counter = 0 := by
    intro hzero
    rw [← hcounter, hzero] at hnext
    simp only [UInt32.reduceToNat] at hnext
    omega
  rw [NatMaps.port, if_neg hset, hcounter, hnext]

/-- The port as the program returns it. -/
theorem port_toUInt16 (m : NatMaps) (k : Nat) (h : m.port.toNat = 50000 + k % portCount) :
    m.port.toUInt16.toNat = 50000 + k % portCount := by
  have hlt : k % portCount < portCount := Nat.mod_lt _ (by decide)
  rw [portCount] at hlt
  rw [UInt32.toNat_toUInt16, h]
  exact Nat.mod_eq_of_lt (by rw [portCount]; omega)

/-- The state after the flows with these numbers have come, in this order. -/
structure Allocated (m : NatMaps) (known : List Nat) : Prop where
  sound : m.Sound
  bound : ∀ k ∈ known, k < 2 ^ 128
  ruled : ∀ k ∈ known, ∃ r, m.rule k = some r ∧
    r.srcPort.toNat = 50000 + known.idxOf k % portCount
  free : ∀ k, k < 2 ^ 128 → k ∉ known → m.rule k = none
  port : m.port.toNat = 50000 + known.length % portCount

theorem allocated_new : Allocated NatMaps.new [] := by
  refine ⟨NatMaps.new_sound, ?_, ?_, ?_, rfl⟩
  · intro k hk
    exact absurd hk List.not_mem_nil
  · intro k hk
    exact absurd hk List.not_mem_nil
  · intro k _ _
    rfl

/-- A new flow takes the next port. -/
theorem Allocated.add {m m' : NatMaps} {known : List Nat} (h : Allocated m known) (c : Connection)
    (hnew : connectionToU128 c ∉ known) (hm' : m'.Sound)
    (hcounter : m'.counter = advancePort m.port)
    (hrules : ∀ k, k < 2 ^ 128 → m'.rule k
      = if k = connectionToU128 c then some (outgoingRewrite c m.port.toUInt16) else m.rule k) :
    Allocated m' (FirstSeen.addNew known (connectionToU128 c)) := by
  have hlen := FirstSeen.length_addNew_of_notMem known _ hnew
  refine ⟨hm', ?_, ?_, ?_, ?_⟩
  · intro k hk
    rcases (FirstSeen.mem_addNew known _ k).mp hk with hold | hsame
    · exact h.bound k hold
    · rw [hsame]
      exact connectionToU128_lt c
  · intro k hk
    rcases (FirstSeen.mem_addNew known _ k).mp hk with hold | hsame
    · rcases h.ruled k hold with ⟨r, hr, hport⟩
      have hne : k ≠ connectionToU128 c := fun heq => hnew (heq ▸ hold)
      refine ⟨r, ?_, ?_⟩
      · rw [hrules k (h.bound k hold), if_neg hne, hr]
      · rw [FirstSeen.idxOf_addNew_of_mem known _ k hold]
        exact hport
    · refine ⟨outgoingRewrite c m.port.toUInt16, ?_, ?_⟩
      · rw [hsame, hrules _ (connectionToU128_lt c), if_pos rfl]
      · rw [hsame, FirstSeen.idxOf_addNew_self known _ hnew]
        exact port_toUInt16 m known.length h.port
  · intro k hk hfree
    rw [FirstSeen.mem_addNew, not_or] at hfree
    rw [hrules k hk, if_neg hfree.2]
    exact h.free k hk hfree.1
  · rw [hlen]
    exact port_advanced m m' known.length h.port hcounter

/-- One packet from the inside. -/
theorem serve_step (m : NatMaps) (known : List Nat) (p : Bytes) (h : Allocated m known) :
    ∃ m' p' output, natMain m ⟨p, 0⟩ = some (m', p', output) ∧
      Allocated m' (FirstSeen.order known (flowKey p).toList) ∧
      ∀ c, connectionOf ⟨p, 0⟩ = some c → ∃ s, connectionOf ⟨p', 0⟩ = some s ∧
        s.srcPort.toNat = 50000 +
          (FirstSeen.addNew known (connectionToU128 c)).idxOf (connectionToU128 c) % portCount := by
  rcases classify_cases m ⟨p, 0⟩ h.sound with ⟨m', p', output, hmain, hm', hcases⟩
  refine ⟨m', p', output, hmain, ?_⟩
  cases hcases with
  | noFlow hc =>
      rw [flowKey, hc]
      refine ⟨h, ?_⟩
      intro c hc'
      exact absurd hc' (by simp only [reduceCtorEq, not_false_eq_true])
  -- Packets from the inside come in on port 0.
  | fromOutside c hc hrule hport =>
      have hzero : ¬ (0 : UInt32) = 1 := by decide
      exact absurd hport hzero
  | elsewhere c hc hrule hport => exact absurd rfl hport.2
  | ruled c r hc hrule =>
      have hknown : connectionToU128 c ∈ known := by
        by_contra hfree
        rw [h.free _ (connectionToU128_lt c) hfree] at hrule
        exact absurd hrule (by simp only [reduceCtorEq, not_false_eq_true])
      have hsame : FirstSeen.addNew known (connectionToU128 c) = known := if_pos hknown
      rw [flowKey, hc]
      refine ⟨?_, ?_⟩
      · change Allocated m (FirstSeen.addNew known (connectionToU128 c))
        rw [hsame]
        exact h
      · intro c' hc'
        rw [← Option.some.inj hc']
        rcases h.ruled _ hknown with ⟨r', hrule', hport⟩
        rw [hrule, Option.some.injEq] at hrule'
        refine ⟨_, connectionOf_rewrite ⟨p, 0⟩ c r 0 hc, ?_⟩
        rw [hsame, hrule']
        exact hport
  | newFlow c _ hc hrule hport hcounter hrules =>
      have hnew : connectionToU128 c ∉ known := by
        intro hknown
        rcases h.ruled _ hknown with ⟨r, hr, -⟩
        rw [hrule] at hr
        exact absurd hr (by simp only [reduceCtorEq, not_false_eq_true])
      rw [flowKey, hc]
      refine ⟨h.add c hnew hm' hcounter hrules, ?_⟩
      intro c' hc'
      rw [← Option.some.inj hc']
      refine ⟨_, connectionOf_rewrite ⟨p, 0⟩ c _ 0 hc, ?_⟩
      rw [FirstSeen.idxOf_addNew_self known _ hnew]
      exact port_toUInt16 m known.length h.port

/-- A whole run: every packet of a flow leaves with the port of its place. -/
theorem serve_run (packets : List Bytes) : ∀ (m : NatMaps) (known : List Nat), Allocated m known →
    ∃ m' sent, natServe m packets = some (m', sent) ∧
      Allocated m' (FirstSeen.order known (flowKeys packets)) ∧
      ∀ (i : Nat) (p : Bytes) (c : Connection), packets[i]? = some p →
        connectionOf ⟨p, 0⟩ = some c → ∃ p' s, sent[i]? = some p' ∧
          connectionOf ⟨p', 0⟩ = some s ∧ s.srcPort.toNat = 50000 +
            (FirstSeen.order known (flowKeys packets)).idxOf (connectionToU128 c) % portCount := by
  induction packets with
  | nil =>
      intro m known h
      refine ⟨m, [], rfl, h, ?_⟩
      intro i p c hp
      exact absurd hp (by simp only [List.getElem?_nil, reduceCtorEq, not_false_eq_true])
  | cons p ps ih =>
      intro m known h
      rcases serve_step m known p h with ⟨m₁, p₁, output, hmain, h₁, hfirst⟩
      rcases ih m₁ _ h₁ with ⟨m', sent, hserve, h', hrest⟩
      -- The packet's own flow is counted before those behind it.
      have horder : FirstSeen.order known (flowKeys (p :: ps))
          = FirstSeen.order (FirstSeen.order known (flowKey p).toList) (flowKeys ps) := by
        rw [flowKeys, List.filterMap_cons]
        cases hkey : flowKey p with
        | none => rfl
        | some k => rfl
      rw [horder]
      refine ⟨m', p₁ :: sent, ?_, h', ?_⟩
      · simp only [natServe, hmain, hserve, Option.map_some]
      · intro i q c hq hc
        cases i with
        | succ i =>
            rw [List.getElem?_cons_succ] at hq ⊢
            exact hrest i q c hq hc
        | zero =>
            rw [List.getElem?_cons_zero, Option.some.injEq] at hq
            rw [← hq] at hc
            rcases hfirst c hc with ⟨s, hs, hport⟩
            refine ⟨p₁, s, rfl, hs, ?_⟩
            -- The place of the flow stays what it was when it came.
            have hkey : flowKey p = some (connectionToU128 c) := by
              rw [flowKey, hc, Option.map_some]
            rw [hkey, hport]
            congr 2
            symm
            apply FirstSeen.idxOf_order_of_mem
            exact (FirstSeen.mem_addNew known _ _).mpr (.inr rfl)

/-- The port a flow leaves with in a run on new maps. -/
theorem leavesWith_iff (packets sent : List Bytes) (c : Connection) (x : UInt16)
    (h : ∀ (i : Nat) (p : Bytes) (c : Connection), packets[i]? = some p →
      connectionOf ⟨p, 0⟩ = some c → ∃ p' s, sent[i]? = some p' ∧ connectionOf ⟨p', 0⟩ = some s ∧
        s.srcPort.toNat = 50000 + ordinal packets c % portCount) :
    LeavesWith packets sent c x ↔
      HasFlow packets c ∧ x.toNat = 50000 + ordinal packets c % portCount := by
  constructor
  · rintro ⟨i, p, p', s, hp, hc, hp', hs, hx⟩
    rcases h i p c hp hc with ⟨q, t, hq, ht, hport⟩
    rw [hp', Option.some.injEq] at hq
    rw [← hq, hs, Option.some.injEq] at ht
    rw [← hx, ht]
    exact ⟨⟨p, List.mem_of_getElem? hp, hc⟩, hport⟩
  · rintro ⟨⟨p, hp, hc⟩, hx⟩
    rcases List.getElem?_of_mem hp with ⟨i, hi⟩
    rcases h i p c hi hc with ⟨p', s, hp', hs, hport⟩
    exact ⟨i, p, p', s, hi, hc, hp', hs, UInt16.toNat_inj.mp (hport.trans hx.symm)⟩

/-- A run on new maps: every flow is in the table, and leaves with the port of
    its place. -/
theorem serve_new (packets : List Bytes) :
    ∃ m sent, natServe NatMaps.new packets = some (m, sent) ∧
      (∀ c, HasFlow packets c → m.rule (connectionToU128 c) ≠ none) ∧
      ∀ c x, LeavesWith packets sent c x ↔
        HasFlow packets c ∧ x.toNat = 50000 + ordinal packets c % portCount := by
  rcases serve_run packets NatMaps.new [] allocated_new with ⟨m, sent, hserve, halloc, hports⟩
  refine ⟨m, sent, hserve, ?_, fun c x => leavesWith_iff packets sent c x hports⟩
  -- Nothing is ever removed.
  rintro c ⟨p, hp, hc⟩
  have hmem : connectionToU128 c ∈ flowKeys packets :=
    List.mem_filterMap.mpr ⟨p, hp, by rw [flowKey, hc, Option.map_some]⟩
  rcases halloc.ruled _ ((FirstSeen.mem_order [] _ _).mpr (.inr hmem)) with ⟨r, hr, -⟩
  rw [hr]
  simp only [ne_eq, reduceCtorEq, not_false_eq_true]

/-- There is a port for every place. -/
theorem exists_port (n : Nat) : ∃ x : UInt16, x.toNat = 50000 + n % portCount := by
  have hlt : n % portCount < portCount := Nat.mod_lt _ (by decide)
  rw [portCount] at hlt
  refine ⟨UInt16.ofNat (50000 + n % portCount), ?_⟩
  rw [UInt16.toNat_ofNat', portCount]
  omega

/-- Two flows a multiple of the number of ports apart leave with one port. -/
theorem not_unique_of_same_place (packets sent : List Bytes) (m : NatMaps) (c d : Connection)
    (hentry : ∀ c, HasFlow packets c → m.rule (connectionToU128 c) ≠ none)
    (hleaves : ∀ c x, LeavesWith packets sent c x ↔
      HasFlow packets c ∧ x.toNat = 50000 + ordinal packets c % portCount)
    (hc : HasFlow packets c) (hd : HasFlow packets d) (htarget : SameTarget c d)
    (hne : connectionToU128 c ≠ connectionToU128 d)
    (hsame : ordinal packets c % portCount = ordinal packets d % portCount) :
    ¬ PortsUnique packets m sent := by
  intro hunique
  rcases exists_port (ordinal packets c) with ⟨x, hx⟩
  refine hunique c d x x ((hleaves c x).mpr ⟨hc, hx⟩) ((hleaves d x).mpr ⟨hd, ?_⟩) htarget hne
    (hentry c hc) (hentry d hd) rfl
  rw [hx, hsame]

/-- In every run on new maps, the ports are unique exactly when no two flows to
    one destination are a multiple of the number of ports apart. -/
theorem ports_unique_iff (packets : List Bytes) :
    ∃ m sent, natServe NatMaps.new packets = some (m, sent) ∧
      (PortsUnique packets m sent ↔
        ∀ c d, HasFlow packets c → HasFlow packets d → SameTarget c d →
          connectionToU128 c ≠ connectionToU128 d →
          ordinal packets c % portCount ≠ ordinal packets d % portCount) := by
  rcases serve_new packets with ⟨m, sent, hserve, hentry, hleaves⟩
  refine ⟨m, sent, hserve, ?_⟩
  constructor
  · intro hunique c d hc hd htarget hne hsame
    exact not_unique_of_same_place packets sent m c d hentry hleaves hc hd htarget hne hsame hunique
  · intro hapart c d x y hx hy htarget hne _ _ hsame
    rcases (hleaves c x).mp hx with ⟨hc, hxport⟩
    rcases (hleaves d y).mp hy with ⟨hd, hyport⟩
    rw [hsame, hyport] at hxport
    exact hapart c d hc hd htarget hne (Nat.add_left_cancel hxport).symm

/-- One packet to 8.8.8.8:53 from each of this many hosts. -/
def manyHosts (n : Nat) : List Bytes :=
  (List.range n).map fun i => udpPacket (UInt32.ofNat i) 1000 0x08080808 53

/-- The flow of a host. -/
def hostFlow (i : Nat) : Connection :=
  ⟨UInt32.ofNat i, 1000, 0x08080808, 53, ipProtoUdp⟩

theorem flowKeys_manyHosts (n : Nat) :
    flowKeys (manyHosts n) = (List.range n).map fun i => connectionToU128 (hostFlow i) := by
  have hkey : (flowKey ∘ fun i => udpPacket (UInt32.ofNat i) 1000 0x08080808 53)
      = fun i => some (connectionToU128 (hostFlow i)) := by
    funext i
    rw [Function.comp_apply, flowKey, connectionOf_udpPacket, Option.map_some]
    rfl
  rw [flowKeys, manyHosts, List.filterMap_map, hkey]
  exact congrFun (List.filterMap_eq_map (f := fun i => connectionToU128 (hostFlow i)))
    (List.range n)

/-- The numbers of the hosts' flows are different. -/
theorem hostFlow_inj (i j : Nat) (hi : i < 2 ^ 32) (hj : j < 2 ^ 32)
    (h : connectionToU128 (hostFlow i) = connectionToU128 (hostFlow j)) : i = j := by
  have hsrc := congrArg (· >>> 96) h
  simp only [connectionToU128_srcIp, hostFlow, UInt32.toNat_ofNat'] at hsrc
  rwa [Nat.mod_eq_of_lt hi, Nat.mod_eq_of_lt hj] at hsrc

/-- The hosts appear in order. -/
theorem ordinal_manyHosts (n i : Nat) (hn : n ≤ 2 ^ 32) (hi : i < n) :
    ordinal (manyHosts n) (hostFlow i) = i := by
  have hnodup : ((List.range n).map fun i => connectionToU128 (hostFlow i)).Nodup := by
    refine List.Nodup.map_on ?_ List.nodup_range
    intro a ha b hb hab
    rw [List.mem_range] at ha hb
    exact hostFlow_inj a b (by omega) (by omega) hab
  have hplace : ((List.range n).map fun i => connectionToU128 (hostFlow i))[i]?
      = some (connectionToU128 (hostFlow i)) := by
    rw [List.getElem?_map, List.getElem?_range hi, Option.map_some]
  rw [ordinal, flowKeys_manyHosts, FirstSeen.order_of_nodup [] _ hnodup
    (fun _ _ => List.not_mem_nil), List.nil_append]
  rcases List.getElem?_eq_some_iff.mp hplace with ⟨hlt, hget⟩
  rw [← hget]
  exact hnodup.idxOf_getElem i hlt

theorem hasFlow_manyHosts (n i : Nat) (hi : i < n) : HasFlow (manyHosts n) (hostFlow i) :=
  ⟨_, List.mem_map.mpr ⟨i, List.mem_range.mpr hi, rfl⟩, connectionOf_udpPacket ..⟩

/-- After 15535 hosts the next one gets the port of the first, which is still
    in the table. -/
theorem port_used_twice :
    ∃ m sent, natServe NatMaps.new (manyHosts 15536) = some (m, sent) ∧
      ¬ PortsUnique (manyHosts 15536) m sent := by
  rcases serve_new (manyHosts 15536) with ⟨m, sent, hserve, hentry, hleaves⟩
  refine ⟨m, sent, hserve, not_unique_of_same_place _ sent m (hostFlow 0) (hostFlow 15535) hentry
    hleaves (hasFlow_manyHosts _ _ (by decide)) (hasFlow_manyHosts _ _ (by decide)) ⟨rfl, rfl, rfl⟩
    ?_ ?_⟩
  · intro hsame
    exact absurd (hostFlow_inj 0 15535 (by decide) (by decide) hsame) (by decide)
  · rw [ordinal_manyHosts _ _ (by decide) (by decide), ordinal_manyHosts _ _ (by decide)
      (by decide)]
    rfl

end UniBPF
