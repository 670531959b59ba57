import UniBPF.Core.Programs

/-!
# What the DNS Filter Parses

A UDP datagram says in its length field how long it is, header and data
together. `dns-filter` takes that number for the length of the data alone: it
skips the eight bytes of the header and then asks for as many bytes as the
field says. That is eight bytes too many, always.

If the frame has eight bytes behind the datagram, the parser gets these too.
If it does not, as with a frame that ends where the datagram does, there is
no slice, and the query is aborted whatever it asks for. A datagram longer
than 50000 bytes is aborted as well.

## Main definitions

* `DnsFrame`: A complete UDP datagram to port 53, in an Ethernet frame.
* `dnsMessage`: The message in it.
* `Parsed`, `parsedData`: The frames the parser gets to see, and what it gets.
* `InspectsMessage`: The message is what the parser gets, and the query is
  not aborted.

## Theorems

* `dnsFilterData_frame`, `dnsFilterData_ok_iff`: What the parser gets.
* `dnsFilterTry_accepted`: The program, where the parser takes what it gets.
* `dns_filter_misreads`: It is never the message, and when it is nothing.
-/

namespace UniBPF

/-- The length of the IP header in a frame, in words. -/
def frameIhl (p : Bytes) : Nat :=
  (Bytes.u8 p ethHdrLen).toNat % 16

/-- Where the UDP header of a frame is. -/
def udpOffset (p : Bytes) : Nat :=
  ethHdrLen + 4 * frameIhl p

/-- The length field of the UDP header. -/
def udpLength (p : Bytes) : Nat :=
  (fromBe (Bytes.u16 p (udpOffset p + 4))).toNat

/-- A frame with a UDP header that has port 53 as its destination. -/
structure DnsHeaders (p : Bytes) : Prop where
  etherType : Bytes.u16 p 12 = etherTypeIpv4
  ihl : 5 ≤ frameIhl p
  protocol : Bytes.u8 p (ethHdrLen + 9) = ipProtoUdp
  destination : (portsAt p (udpOffset p)).2 = 53

/-- A frame with a complete UDP datagram to port 53. -/
structure DnsFrame (p : Bytes) : Prop extends DnsHeaders p where
  udpLength : udpHdrLen ≤ udpLength p
  complete : udpOffset p + UniBPF.udpLength p ≤ p.length

/-- A frame whose data `dns-filter` hands to the parser. -/
structure Parsed (p : Bytes) : Prop extends DnsHeaders p where
  bound : udpLength p ≤ 50000
  present : udpOffset p + udpHdrLen + udpLength p ≤ p.length

instance (p : Bytes) : Decidable (DnsFrame p) :=
  decidable_of_iff (Bytes.u16 p 12 = etherTypeIpv4 ∧ 5 ≤ frameIhl p ∧
      Bytes.u8 p (ethHdrLen + 9) = ipProtoUdp ∧ (portsAt p (udpOffset p)).2 = 53 ∧
      udpHdrLen ≤ udpLength p ∧ udpOffset p + udpLength p ≤ p.length)
    ⟨fun ⟨h₁, h₂, h₃, h₄, h₅, h₆⟩ => ⟨⟨h₁, h₂, h₃, h₄⟩, h₅, h₆⟩,
      fun ⟨⟨h₁, h₂, h₃, h₄⟩, h₅, h₆⟩ => ⟨h₁, h₂, h₃, h₄, h₅, h₆⟩⟩

/-- As many bytes behind the UDP header as the length field says. -/
def parsedData (p : Bytes) : Bytes :=
  (p.drop (udpOffset p + udpHdrLen)).take (udpLength p)

/-- The data of the datagram. -/
def dnsMessage (p : Bytes) : Bytes :=
  (p.drop (udpOffset p + udpHdrLen)).take (udpLength p - udpHdrLen)

/-- The program hands the message to the parser, and does not abort. -/
def InspectsMessage (lib : DnsLibrary) (ctx : BpfContext) : Prop :=
  dnsFilterData ctx = some (.ok (dnsMessage ctx.packet)) ∧ dnsFilterRun lib ctx ≠ .returned .abort

theorem getSlice_some_iff (ctx : BpfContext) (len offset : Nat) (data : Bytes) :
    getSlice ctx len offset = some data ↔ len ≤ 50000 ∧ offset + len ≤ ctx.packet.length ∧
      data = (ctx.packet.drop offset).take len := by
  unfold getSlice
  by_cases hlong : 50000 < len
  · rw [if_pos hlong]
    refine ⟨fun h => ?_, fun h => ?_⟩
    · exact absurd h (by simp only [reduceCtorEq, not_false_eq_true])
    · omega
  · rw [if_neg hlong]
    by_cases hfits : offset + len ≤ ctx.packet.length
    · rw [if_pos (show ctx.getPtr offset len = true from decide_eq_true hfits), Option.some.injEq]
      exact ⟨fun h => ⟨by omega, hfits, h.symm⟩, fun h => h.2.2.symm⟩
    · have hptr : ¬ ctx.getPtr offset len = true := fun hyes => hfits (of_decide_eq_true hyes)
      rw [if_neg hptr]
      refine ⟨fun h => ?_, fun h => absurd h.2.1 hfits⟩
      exact absurd h (by simp only [reduceCtorEq, not_false_eq_true])

theorem getSlice_none_iff (ctx : BpfContext) (len offset : Nat) :
    getSlice ctx len offset = none ↔ 50000 < len ∨ ctx.packet.length < offset + len := by
  cases hslice : getSlice ctx len offset with
  | none =>
      refine ⟨fun _ => ?_, fun _ => rfl⟩
      by_contra hno
      have hsome := (getSlice_some_iff ctx len offset _).mpr ⟨by omega, by omega, rfl⟩
      rw [hslice] at hsome
      exact absurd hsome (by simp only [reduceCtorEq, not_false_eq_true])
  | some data =>
      rcases (getSlice_some_iff ctx len offset data).mp hslice with ⟨hlen, hfits, -⟩
      refine ⟨fun h => ?_, fun h => ?_⟩
      · exact absurd h (by simp only [reduceCtorEq, not_false_eq_true])
      · omega

/-- Behind a UDP header the program takes as many bytes as the length field
    says. -/
theorem dnsFilterData_headers (ctx : BpfContext) (h : DnsHeaders ctx.packet)
    (hfits : udpOffset ctx.packet + udpHdrLen ≤ ctx.packet.length) :
    dnsFilterData ctx
      = (getSlice ctx (udpLength ctx.packet) (udpOffset ctx.packet + udpHdrLen)).map .ok := by
  have hihl := h.ihl
  have hwords : (Bytes.u8 ctx.packet ethHdrLen).toNat % 16 * 4 = 4 * frameIhl ctx.packet :=
    Nat.mul_comm _ _
  have hptr : ctx.getPtr (udpOffset ctx.packet) udpHdrLen = true := decide_eq_true hfits
  have heth : ctx.getPtr 0 ethHdrLen = true := by
    refine decide_eq_true ?_
    unfold udpOffset at hfits
    omega
  have hip : ctx.getPtr ethHdrLen ipv4HdrLen = true := by
    refine decide_eq_true ?_
    rw [ipv4HdrLen]
    unfold udpOffset at hfits
    omega
  have hlong : ¬ 4 * frameIhl ctx.packet < ipv4HdrLen := by
    rw [ipv4HdrLen]
    omega
  have hplace : ethHdrLen + 4 * frameIhl ctx.packet = udpOffset ctx.packet := rfl
  simp only [dnsFilterData, hwords, hplace, heth, hip, hptr, h.etherType, h.protocol, h.destination,
    ne_eq, not_true_eq_false, Bool.not_true, Bool.false_eq_true, if_false, if_neg hlong, udpLength]

theorem dnsFilterData_frame (ctx : BpfContext) (h : DnsFrame ctx.packet) :
    dnsFilterData ctx
      = (getSlice ctx (udpLength ctx.packet) (udpOffset ctx.packet + udpHdrLen)).map .ok := by
  have hudp := h.udpLength
  have hcomplete := h.complete
  exact dnsFilterData_headers ctx h.toDnsHeaders (by omega)

/-- Data is handed to the parser only from a frame that has a UDP header with
    the right destination. -/
theorem dnsHeaders_of_data (ctx : BpfContext) (data : Bytes)
    (h : dnsFilterData ctx = some (.ok data)) : DnsHeaders ctx.packet ∧
      udpOffset ctx.packet + udpHdrLen ≤ ctx.packet.length := by
  unfold dnsFilterData at h
  -- One test after another: data is only handed on past the last of them.
  by_cases heth : (!ctx.getPtr 0 ethHdrLen) = true
  · rw [if_pos heth] at h
    exact absurd h (by simp only [reduceCtorEq, not_false_eq_true])
  rw [if_neg heth] at h
  by_cases htype : Bytes.u16 ctx.packet 12 ≠ etherTypeIpv4
  · rw [if_pos htype] at h
    exact absurd h (by simp only [Option.some.injEq, reduceCtorEq, not_false_eq_true])
  rw [if_neg htype] at h
  by_cases hip : (!ctx.getPtr ethHdrLen ipv4HdrLen) = true
  · rw [if_pos hip] at h
    exact absurd h (by simp only [reduceCtorEq, not_false_eq_true])
  rw [if_neg hip] at h
  -- From here on the offset of the UDP header is the one the IHL gives.
  have hwords : (Bytes.u8 ctx.packet ethHdrLen).toNat % 16 * 4 = 4 * frameIhl ctx.packet :=
    Nat.mul_comm _ _
  have hplace : ethHdrLen + 4 * frameIhl ctx.packet = udpOffset ctx.packet := rfl
  simp only [hwords, hplace] at h
  by_cases hlong : 4 * frameIhl ctx.packet < ipv4HdrLen
  · rw [if_pos hlong] at h
    exact absurd h (by simp only [Option.some.injEq, reduceCtorEq, not_false_eq_true])
  rw [if_neg hlong] at h
  by_cases hproto : Bytes.u8 ctx.packet (ethHdrLen + 9) ≠ ipProtoUdp
  · rw [if_pos hproto] at h
    exact absurd h (by simp only [Option.some.injEq, reduceCtorEq, not_false_eq_true])
  rw [if_neg hproto] at h
  by_cases hudp : (!ctx.getPtr (udpOffset ctx.packet) udpHdrLen) = true
  · rw [if_pos hudp] at h
    exact absurd h (by simp only [reduceCtorEq, not_false_eq_true])
  rw [if_neg hudp] at h
  by_cases hport : (portsAt ctx.packet (udpOffset ctx.packet)).2 ≠ 53
  · rw [if_pos hport] at h
    exact absurd h (by simp only [Option.some.injEq, reduceCtorEq, not_false_eq_true])
  have hihl : 5 ≤ frameIhl ctx.packet := by
    rw [ipv4HdrLen] at hlong
    omega
  have hfits : ctx.getPtr (udpOffset ctx.packet) udpHdrLen = true := by
    rwa [Bool.not_eq_true', Bool.not_eq_false] at hudp
  exact ⟨⟨not_not.mp htype, hihl, not_not.mp hproto, not_not.mp hport⟩, of_decide_eq_true hfits⟩

/-- What is handed to the parser, and from which frames. -/
theorem dnsFilterData_ok_iff (ctx : BpfContext) (data : Bytes) :
    dnsFilterData ctx = some (.ok data) ↔ Parsed ctx.packet ∧ data = parsedData ctx.packet := by
  constructor
  · intro h
    rcases dnsHeaders_of_data ctx data h with ⟨hheaders, hfits⟩
    rw [dnsFilterData_headers ctx hheaders hfits] at h
    rcases Option.map_eq_some_iff.mp h with ⟨slice, hslice, heq⟩
    rcases (getSlice_some_iff ctx _ _ slice).mp hslice with ⟨hbound, hpresent, hdata⟩
    exact ⟨⟨hheaders, hbound, hpresent⟩, by rw [← Except.ok.inj heq, hdata, parsedData]⟩
  · intro ⟨hparsed, hdata⟩
    have hpresent := hparsed.present
    rw [dnsFilterData_headers ctx hparsed.toDnsHeaders (by omega),
      (getSlice_some_iff ctx _ _ data).mpr ⟨hparsed.bound, hpresent, hdata⟩, Option.map_some]

/-- Where the parser takes what it is given, the program is the filter of
    the verdicts on the data. -/
theorem dnsFilterTry_accepted (lib : DnsLibrary) (ctx : BpfContext)
    (questions : Bytes → FilterResult) (haccepts : ∀ data, dnsFilterData ctx = some (.ok data) →
      ∃ message, lib.new data = some message ∧ questions data = lib.verdict message) :
    dnsFilterTry lib ctx = .returned (dnsFilter questions ctx) := by
  have hdata : dnsFilter questions ctx = (dnsFilterData ctx).map fun e =>
      match e with
      | .error answer => answer
      | .ok data => questions data := by
    unfold dnsFilter dnsFilterData
    simp only [apply_ite (Option.map _), Option.map_some, Option.map_none, Option.map_map]
    rfl
  unfold dnsFilterTry
  rw [hdata]
  cases hcase : dnsFilterData ctx with
  | none => rfl
  | some e =>
      cases e with
      | error answer => rfl
      | ok data =>
          rcases haccepts data hcase with ⟨message, hmessage, hquestions⟩
          simp only [hmessage, Ending.unwrap, Ending.returned_bind, Option.map_some, hquestions]

/-- The verdict on a message is never to abort. -/
theorem verdict_ne_abort (lib : DnsLibrary) (message : lib.Message) :
    lib.verdict message ≠ .abort := by
  unfold DnsLibrary.verdict
  cases lib.questions message with
  | none => exact FilterResult.noConfusion
  | some questions =>
      simp only
      split
      · exact FilterResult.noConfusion
      · exact FilterResult.noConfusion

/-- A complete query is aborted exactly if there is no slice for it. -/
theorem dnsFilterRun_abort_iff (lib : DnsLibrary) (ctx : BpfContext) (h : DnsFrame ctx.packet) :
    dnsFilterRun lib ctx = .returned .abort ↔
      getSlice ctx (udpLength ctx.packet) (udpOffset ctx.packet + udpHdrLen) = none := by
  unfold dnsFilterRun dnsFilterTry
  rw [dnsFilterData_frame ctx h]
  cases getSlice ctx (udpLength ctx.packet) (udpOffset ctx.packet + udpHdrLen) with
  | none => exact ⟨fun _ => rfl, fun _ => rfl⟩
  | some data =>
      refine ⟨fun habort => ?_, fun hnone => ?_⟩
      · simp only [Option.map_some] at habort
        cases hmessage : lib.new data with
        | none =>
            rw [hmessage] at habort
            exact absurd habort (by simp only [Ending.unwrap, Ending.bind, Ending.map, reduceCtorEq,
              not_false_eq_true])
        | some message =>
            rw [hmessage] at habort
            simp only [Ending.unwrap, Ending.returned_bind, Ending.map_returned, Option.getD_some,
              Ending.returned.injEq] at habort
            exact absurd habort (verdict_ne_abort lib message)
      · exact absurd hnone (by simp only [reduceCtorEq, not_false_eq_true])

/-- What the parser gets is never the message, and a query is aborted exactly
    if the frame does not go on for eight bytes behind it, or if the length
    field is above 50000. -/
theorem dns_filter_misreads (lib : DnsLibrary) (ctx : BpfContext) (h : DnsFrame ctx.packet) :
    ¬ InspectsMessage lib ctx ∧
      (dnsFilterRun lib ctx = .returned .abort ↔ 50000 < udpLength ctx.packet ∨
        ctx.packet.length < udpOffset ctx.packet + udpLength ctx.packet + udpHdrLen) := by
  constructor
  · rintro ⟨hdata, -⟩
    rw [dnsFilterData_frame ctx h] at hdata
    rcases Option.map_eq_some_iff.mp hdata with ⟨data, hslice, heq⟩
    rcases (getSlice_some_iff ctx _ _ data).mp hslice with ⟨-, hpresent, hbytes⟩
    have hlen : data.length = udpLength ctx.packet := by
      rw [hbytes, List.length_take, List.length_drop]
      omega
    have hudp := h.udpLength
    -- The message is eight bytes shorter than the slice.
    have hshort : data.length ≤ udpLength ctx.packet - udpHdrLen := by
      rw [Except.ok.inj heq]
      exact List.length_take_le _ _
    have height : udpHdrLen = 8 := rfl
    omega
  · rw [dnsFilterRun_abort_iff lib ctx h, getSlice_none_iff, Nat.add_right_comm]

/-- A frame with a datagram to port 53: its length field, and what comes
    behind the UDP header. -/
def dnsFrame (len : UInt8) (data : Bytes) : BpfContext where
  packet := List.replicate 12 0 ++ [0x08, 0x00] ++ [0x45] ++ List.replicate 8 0 ++ [17] ++
    List.replicate 10 0 ++ [0x30, 0x39, 0, 53, 0, len, 0, 0] ++ data
  port := 0

/-- A library that takes every message that has a header, and finds no
    question in it. -/
def headerOnlyLibrary : DnsLibrary where
  Message := Bytes
  Name := Bytes
  new := fun data => if data.length < 12 then none else some data
  questions := fun _ => some []
  blocked := fun _ => false

/-- A query with eight bytes behind it gets an answer, though not from the
    message. -/
theorem padded_query_misread : DnsFrame (dnsFrame 20 (List.replicate 20 0)).packet ∧
    ¬ InspectsMessage headerOnlyLibrary (dnsFrame 20 (List.replicate 20 0)) ∧
    dnsFilterRun headerOnlyLibrary (dnsFrame 20 (List.replicate 20 0)) = .returned .pass :=
  ⟨by decide +kernel, (dns_filter_misreads headerOnlyLibrary _ (by decide +kernel)).1,
    by decide +kernel⟩

/-- A query in a frame that ends where the query does is aborted. -/
theorem plain_query_aborted : DnsFrame (dnsFrame 20 (List.replicate 12 0)).packet ∧
    dnsFilterData (dnsFrame 20 (List.replicate 12 0)) = none ∧
    dnsFilterRun headerOnlyLibrary (dnsFrame 20 (List.replicate 12 0)) = .returned .abort :=
  ⟨by decide +kernel, rfl, rfl⟩

end UniBPF
