import UniBPF.Core.Ipv4
import UniBPF.Theory.NatTable

/-!
# The Header Checksum after a Rewrite

`apply_rewrite` writes both addresses and brings the header checksum up to
date with each. In one's complement the update takes the old words out and
puts the new ones in, so the header adds up as before (`updateChecksum_cast`).
The words are added as they lie in memory, with their bytes swapped, which
multiplies everything by `256` and changes nothing else.

The two zeros of one's complement are kept apart: an update yields `0xffff`
only from `0xffff`. A checksum as it is computed from scratch is never
`0xffff`, since the version is part of the header, and so it stays one
(`recomputed_iff`).

The ports are written after the addresses, at offset 20, and there is no
update for them. In a header with options this is inside the header. What is
added then is the difference of the ports and the option words that were
there.

## Main definitions

* `addressed`: A packet by its checksum, addresses, and what is around them.
* `PortsWritten`: `apply_rewrite` finds a transport header.
* `OptionsKept`: What the ports replace adds up to what they do.

## Theorems

* `updateChecksum_cast`, `updateChecksum_ne`: The incremental checksum.
* `setAddresses_addressed`: The rewriting of the addresses.
* `rewrittenBy_eq`: A packet after a rule was applied, field by field.
* `headerVerifies_iff`, `recomputed_iff`: The header checksum modulo `65535`.
* `header_checksum_iff`: When the checksum is right after a rewrite.
-/

namespace UniBPF

open LittleEndian OnesComplement

section Update

variable (c old new : UInt16)

/-- `update_checksum`, in numbers. -/
theorem updateChecksum_toNat :
    let s := (65535 - c.toNat) + (65535 - old.toNat) + new.toNat
    let t := s % 65536 + s / 65536
    (updateChecksum c old new).toNat = 65535 - (t + t / 65536) % 65536 := by
  have hc : c.toNat < 65536 := c.toNat_lt
  have ho : old.toNat < 65536 := old.toNat_lt
  have hn : new.toNat < 65536 := new.toNat_lt
  intro s t
  have hs : ((~~~c).toUInt32 + (~~~old).toUInt32 + new.toUInt32).toNat = s := by
    simp only [UInt32.toNat_add, UInt16.toNat_toUInt32, UInt16.toNat_not, UInt16.size, s]
    omega
  have hand : ∀ x : UInt32, (x &&& (0xffff : UInt32)).toNat = x.toNat % 65536 := by
    intro x
    rw [UInt32.toNat_and]
    exact Nat.and_two_pow_sub_one_eq_mod x.toNat 16
  have hshift : ∀ x : UInt32, (x >>> 16).toNat = x.toNat / 65536 := by
    intro x
    rw [UInt32.toNat_shiftRight, Nat.shiftRight_eq_div_pow]
    rfl
  simp only [updateChecksum, UInt32.toNat_toUInt16, UInt32.toNat_not, UInt32.toNat_add, hand,
    hshift, hs, UInt32.size]
  omega

/-- The old word is taken out of the sum and the new one is put in. -/
theorem updateChecksum_cast :
    ((updateChecksum c old new).toNat : ZMod 65535) = c.toNat + old.toNat - new.toNat := by
  have hc : c.toNat < 65536 := c.toNat_lt
  have ho : old.toNat < 65536 := old.toNat_lt
  have hn : new.toNat < 65536 := new.toNat_lt
  have hvalue := updateChecksum_toNat c old new
  -- Two foldings bring three words back to one, and lose only carries.
  rcases (fold_carries ((65535 - c.toNat) + (65535 - old.toNat) + new.toNat)
    (by omega)).1 with ⟨k, hk⟩
  have hsum : c.toNat + old.toNat + 65535 * (k + 1)
      = (updateChecksum c old new).toNat + new.toNat + 65535 * 2 := by
    simp only [] at hvalue hk
    omega
  have hleft := cast_of_carry (c.toNat + old.toNat) (k + 1) _ rfl
  have hright := cast_of_carry ((updateChecksum c old new).toNat + new.toNat) 2 _ rfl
  rw [hsum, ← hright, Nat.cast_add, Nat.cast_add] at hleft
  linear_combination -hleft

/-- Only `0xffff` is updated to `0xffff`. -/
theorem updateChecksum_ne (h : c.toNat ≠ 65535) : (updateChecksum c old new).toNat ≠ 65535 := by
  have hc : c.toNat < 65536 := c.toNat_lt
  have ho : old.toNat < 65536 := old.toNat_lt
  have hn : new.toNat < 65536 := new.toNat_lt
  have hvalue := updateChecksum_toNat c old new
  have hzero := (fold_carries ((65535 - c.toNat) + (65535 - old.toNat) + new.toNat) (by omega)).2
  simp only [] at hvalue hzero
  omega

/-- What an address adds to a sum. -/
def addrSum (a : UInt32) : ZMod 65535 :=
  (a.toNat % 65536 : Nat) + (a.toNat / 65536 : Nat)

theorem updateChecksumIp_cast (old new : UInt32) :
    ((updateChecksumIp c old new).toNat : ZMod 65535) = c.toNat + addrSum old - addrSum new := by
  have hlow : ∀ a : UInt32, a.toUInt16.toNat = a.toNat % 65536 := UInt32.toNat_toUInt16
  have hhigh : ∀ a : UInt32, (a >>> 16).toUInt16.toNat = a.toNat / 65536 := by
    intro a
    have ha : a.toNat < 2 ^ 32 := a.toNat_lt
    have hshift : (a >>> 16).toNat = a.toNat / 65536 := by
      rw [UInt32.toNat_shiftRight, Nat.shiftRight_eq_div_pow]
      rfl
    rw [UInt32.toNat_toUInt16, hshift]
    omega
  rw [updateChecksumIp, updateChecksum_cast, updateChecksum_cast, hhigh, hhigh, hlow, hlow, addrSum,
    addrSum]
  ring

theorem updateChecksumIp_ne (old new : UInt32) (h : c.toNat ≠ 65535) :
    (updateChecksumIp c old new).toNat ≠ 65535 :=
  updateChecksum_ne _ _ _ (updateChecksum_ne _ _ _ h)

end Update

/-- A packet: ten bytes, the header checksum, the addresses, and the rest. -/
def addressed (pre : Bytes) (check : UInt16) (src dst : UInt32) (rest : Bytes) : Bytes :=
  pre ++ (toLE 2 check.toNat ++ (toLE 4 src.toNat ++ (toLE 4 dst.toNat ++ rest)))

theorem toLE_u16 (p : Bytes) (off : Nat) (h : off + 2 ≤ p.length) :
    toLE 2 (Bytes.u16 p off).toNat = (p.drop off).take 2 := by
  have hlt : readLE p off 2 < 65536 := readLE_lt p off 2
  rw [Bytes.u16, UInt16.toNat_ofNat', Nat.mod_eq_of_lt hlt, toLE_readLE p off 2 h]

theorem toLE_u32 (p : Bytes) (off : Nat) (h : off + 4 ≤ p.length) :
    toLE 4 (Bytes.u32 p off).toNat = (p.drop off).take 4 := by
  have hlt : readLE p off 4 < 4294967296 := readLE_lt p off 4
  rw [Bytes.u32, UInt32.toNat_ofNat', Nat.mod_eq_of_lt hlt, toLE_readLE p off 4 h]

/-- Some bytes, and those behind them. -/
theorem take_append_drop_add (p : Bytes) (off w : Nat) :
    (p.drop off).take w ++ p.drop (off + w) = p.drop off := by
  rw [← List.drop_drop]
  exact List.take_append_drop w (p.drop off)

theorem length_take_ten (p : Bytes) (h : 20 ≤ p.length) : (p.take 10).length = 10 := by
  rw [List.length_take]
  omega

theorem addressed_self (p : Bytes) (h : 20 ≤ p.length) :
    addressed (p.take 10) (Bytes.u16 p 10) (Bytes.u32 p 12) (Bytes.u32 p 16) (p.drop 20) = p := by
  rw [addressed, toLE_u16 p 10 (by omega), toLE_u32 p 12 (by omega), toLE_u32 p 16 (by omega),
    take_append_drop_add p 16 4, take_append_drop_add p 12 4, take_append_drop_add p 10 2,
    List.take_append_drop]

/-- What is behind the addresses stands at the end. -/
theorem addressed_append (pre : Bytes) (check : UInt16) (src dst : UInt32) (rest : Bytes) :
    addressed pre check src dst rest = addressed pre check src dst [] ++ rest := by
  simp only [addressed, List.append_assoc, List.append_nil]

section Layout

variable (pre : Bytes) (check : UInt16) (src dst : UInt32) (rest : Bytes) (hpre : pre.length = 10)

include hpre

theorem length_addressed : (addressed pre check src dst rest).length = 20 + rest.length := by
  simp only [addressed, List.length_append, length_toLE, hpre]
  omega

theorem setU16_addressed (v : UInt16) :
    Bytes.setU16 (addressed pre check src dst rest) 10 v = addressed pre v src dst rest := by
  have hskip := writeLE_append_right pre (toLE 2 check.toNat ++ (toLE 4 src.toNat ++
    (toLE 4 dst.toNat ++ rest))) 0 2 v.toNat
  rw [hpre, writeLE_toLE] at hskip
  exact hskip

theorem setU32_addressed_src (v : UInt32) :
    Bytes.setU32 (addressed pre check src dst rest) 12 v = addressed pre check v dst rest := by
  have hskip := writeLE_append_right pre (toLE 2 check.toNat ++ (toLE 4 src.toNat ++
    (toLE 4 dst.toNat ++ rest))) 2 4 v.toNat
  rw [hpre, writeLE_toLE_skip 2 _ _ 0, writeLE_toLE] at hskip
  exact hskip

theorem setU32_addressed_dst (v : UInt32) :
    Bytes.setU32 (addressed pre check src dst rest) 16 v = addressed pre check src v rest := by
  have hskip := writeLE_append_right pre (toLE 2 check.toNat ++ (toLE 4 src.toNat ++
    (toLE 4 dst.toNat ++ rest))) 6 4 v.toNat
  rw [hpre, writeLE_toLE_skip 2 _ _ 4, writeLE_toLE_skip 4 _ _ 0, writeLE_toLE] at hskip
  exact hskip

theorem u16_addressed : Bytes.u16 (addressed pre check src dst rest) 10 = check := by
  rw [Bytes.u16, addressed, readLE_append_right _ _ _ _ (by omega), hpre]
  exact ofNat_readLE_u16 check _

theorem u32_addressed_src : Bytes.u32 (addressed pre check src dst rest) 12 = src := by
  rw [Bytes.u32, addressed, readLE_append_right _ _ _ _ (by omega), hpre,
    readLE_toLE_skip 2 _ _ 0, ofNat_readLE_u32]

theorem u32_addressed_dst : Bytes.u32 (addressed pre check src dst rest) 16 = dst := by
  rw [Bytes.u32, addressed, readLE_append_right _ _ _ _ (by omega), hpre,
    readLE_toLE_skip 2 _ _ 4, readLE_toLE_skip 4 _ _ 0, ofNat_readLE_u32]

/-- The addresses are those of the rule, and the checksum is updated twice. -/
theorem setAddresses_addressed (r : Rewrite) :
    setAddresses (addressed pre check src dst rest) r
      = addressed pre (updateChecksumIp (updateChecksumIp check src r.srcIp) dst r.dstIp)
          r.srcIp r.dstIp rest := by
  simp only [setAddresses, u16_addressed pre _ _ _ _ hpre, u32_addressed_src pre _ _ _ _ hpre,
    u32_addressed_dst pre _ _ _ _ hpre, setU16_addressed pre _ _ _ _ hpre,
    setU32_addressed_src pre _ _ _ _ hpre, setU32_addressed_dst pre _ _ _ _ hpre]

/-- A header that is at least twenty bytes long has the addresses in it. -/
theorem take_addressed (n : Nat) (hn : 20 ≤ n) :
    (addressed pre check src dst rest).take n
      = addressed pre check src dst (rest.take (n - 20)) := by
  have hlen := length_addressed pre check src dst [] hpre
  rw [List.length_nil] at hlen
  rw [addressed_append, List.take_append, List.take_of_length_le (by omega), hlen,
    ← addressed_append]

theorem u8_addressed (off : Nat) (h : off < 10) :
    Bytes.u8 (addressed pre check src dst rest) off = Bytes.u8 pre off := by
  rw [Bytes.u8, addressed, readLE_append_left _ _ _ _ (by omega)]
  rfl

/-- The sum of the words, by what is in them. -/
theorem wordSum_addressed : (wordSum (addressed pre check src dst rest) : ZMod 65535)
    = wordSum pre + 256 * (check.toNat + addrSum src + addrSum dst) + wordSum rest := by
  have hcheck : (wordSum (toLE 2 check.toNat) : ZMod 65535) = 256 * check.toNat :=
    wordSum_toLE_two _ check.toNat_lt
  have haddr : ∀ a : UInt32, (wordSum (toLE 4 a.toNat) : ZMod 65535) = 256 * addrSum a :=
    fun a => wordSum_toLE_four _ a.toNat_lt
  rw [addressed, wordSum_append _ _ (by rw [hpre]; decide),
    wordSum_append _ _ (by rw [length_toLE]), wordSum_append _ _ (by rw [length_toLE]; decide),
    wordSum_append _ _ (by rw [length_toLE]; decide)]
  simp only [Nat.cast_add, hcheck, haddr]
  ring

end Layout

section Verification

theorem wordSum_ne_zero (p : Bytes) (h : (Bytes.u8 p 0).toNat ≠ 0) : wordSum p ≠ 0 := by
  have hbyte : ∀ a bs, Bytes.u8 (a :: bs) 0 = a := by
    intro a bs
    rw [Bytes.u8, readLE_one (a :: bs) 0 a rfl]
    exact UInt8.ofNat_toNat
  rcases p with _ | ⟨a, _ | ⟨b, bs⟩⟩
  · exact absurd rfl h
  · rw [hbyte] at h
    simp only [wordSum, words, List.sum_cons, List.sum_nil]
    omega
  · rw [hbyte] at h
    simp only [wordSum, words, List.sum_cons]
    omega

/-- The header adds up when its sum is zero modulo `65535`. -/
theorem headerVerifies_iff (p : Bytes) (h : Ipv4 p) :
    HeaderVerifies p ↔ (wordSum (ipHeader p) : ZMod 65535) = 0 := by
  have hversion := h.version
  have hfirst : Bytes.u8 (ipHeader p) 0 = Bytes.u8 p 0 := by
    rw [Bytes.u8, Bytes.u8, ipHeader, readLE, readLE, List.drop_zero, List.drop_zero,
      List.take_take, Nat.min_eq_left (by have := h.ihl; omega)]
  refine verifies_iff _ (words_le _) (wordSum_ne_zero _ ?_)
  rw [hfirst]
  unfold Bytes.version at hversion
  omega

variable (pre : Bytes) (check : UInt16) (src dst : UInt32) (rest : Bytes) (hpre : pre.length = 10)

include hpre

theorem ihl_addressed : Bytes.ihl (addressed pre check src dst rest) = Bytes.ihl pre := by
  rw [Bytes.ihl, u8_addressed pre check src dst rest hpre 0 (by decide)]
  rfl

theorem ipv4_addressed (h : Ipv4 (addressed pre check src dst rest)) (check' : UInt16)
    (src' dst' : UInt32) (rest' : Bytes) (hlen : rest'.length = rest.length) :
    Ipv4 (addressed pre check' src' dst' rest') := by
  have hversion := h.version
  have hihl := h.ihl
  have hheader := h.header
  rw [Bytes.version, u8_addressed pre _ _ _ _ hpre 0 (by decide)] at hversion
  rw [ihl_addressed pre _ _ _ _ hpre] at hihl hheader
  rw [length_addressed pre _ _ _ _ hpre] at hheader
  refine ⟨?_, ?_, ?_⟩
  · rw [Bytes.version, u8_addressed pre _ _ _ _ hpre 0 (by decide)]
    exact hversion
  · rw [ihl_addressed pre _ _ _ _ hpre]
    exact hihl
  · rw [ihl_addressed pre _ _ _ _ hpre, length_addressed pre _ _ _ _ hpre, hlen]
    exact hheader

theorem ipHeader_addressed (h : 5 ≤ Bytes.ihl pre) : ipHeader (addressed pre check src dst rest)
    = addressed pre check src dst (rest.take (4 * Bytes.ihl pre - 20)) := by
  rw [ipHeader, ihl_addressed pre _ _ _ _ hpre, take_addressed pre _ _ _ _ hpre _ (by omega)]

/-- A header that adds up has the checksum it would be given, unless it has
    the other zero. -/
theorem recomputed_iff (h : Ipv4 (addressed pre check src dst rest))
    (hv : HeaderVerifies (addressed pre check src dst rest)) :
    Bytes.be16 (addressed pre check src dst rest) 10
      = headerChecksum (addressed pre check src dst rest) ↔ check.toNat ≠ 65535 := by
  have hihl := h.ihl
  rw [ihl_addressed pre _ _ _ _ hpre] at hihl
  rw [headerVerifies_iff _ h, ipHeader_addressed pre _ _ _ _ hpre hihl,
    wordSum_addressed pre _ _ _ _ hpre] at hv
  rw [Bytes.be16, u16_addressed pre _ _ _ _ hpre, headerChecksum,
    ipHeader_addressed pre _ _ _ _ hpre hihl, setU16_addressed pre _ _ _ _ hpre]
  -- The sum without the checksum is a word, and not zero.
  have hwords := words_le (addressed pre 0 src dst (rest.take (4 * Bytes.ihl pre - 20)))
  have hle := sum_le 65535 _ hwords
  have hpos :
      sum 65535 (words (addressed pre 0 src dst (rest.take (4 * Bytes.ihl pre - 20)))) ≠ 0 := by
    rw [Ne, sum_eq_zero]
    refine wordSum_ne_zero _ ?_
    have hversion := h.version
    rw [Bytes.version, u8_addressed pre _ _ _ _ hpre 0 (by decide)] at hversion
    rw [u8_addressed pre _ _ _ _ hpre 0 (by decide)]
    omega
  -- It is the complement of the stored one, modulo `65535`.
  have hcast : ((sum 65535 (words (addressed pre 0 src dst (rest.take (4 * Bytes.ihl pre - 20))))
      + (fromBe check).toNat : Nat) : ZMod 65535) = 0 := by
    have hsum : (sum 65535 (words (addressed pre 0 src dst (rest.take (4 * Bytes.ihl pre - 20))))
        : ZMod 65535) = wordSum (addressed pre 0 src dst (rest.take (4 * Bytes.ihl pre - 20))) :=
      (ZMod.natCast_eq_natCast_iff _ _ _).mpr (sum_modEq 65535 _)
    rw [Nat.cast_add, hsum, wordSum_addressed pre _ _ _ _ hpre, fromBe_cast]
    simp only [UInt16.toNat_zero, Nat.cast_zero, zero_add]
    linear_combination hv
  rw [ZMod.natCast_eq_zero_iff] at hcast
  have hcheck : check.toNat < 65536 := check.toNat_lt
  have hturned := fromBe_toNat check
  omega

end Verification

/-- The ports of a transport header, and what is behind them. -/
def withPorts (sport dport : UInt16) (rest : Bytes) : Bytes :=
  toLE 2 (fromBe sport).toNat ++ (toLE 2 (fromBe dport).toNat ++ rest)

section Ports

variable (sport dport : UInt16) (rest : Bytes)

theorem length_withPorts : (withPorts sport dport rest).length = 4 + rest.length := by
  simp only [withPorts, List.length_append, length_toLE]
  omega

theorem withPorts_self (p : Bytes) (off : Nat) (h : off + 4 ≤ p.length) :
    withPorts (fromBe (Bytes.u16 p off)) (fromBe (Bytes.u16 p (off + 2))) (p.drop (off + 4))
      = p.drop off := by
  rw [withPorts, fromBe_fromBe, fromBe_fromBe, toLE_u16 p off (by omega),
    toLE_u16 p (off + 2) (by omega), take_append_drop_add p (off + 2) 2,
    take_append_drop_add p off 2]

/-- The ports are written behind twenty bytes. -/
theorem setPorts_addressed (pre : Bytes) (check : UInt16) (src dst : UInt32) (r : Rewrite)
    (hpre : pre.length = 10) :
    setPorts (addressed pre check src dst (withPorts sport dport rest)) r
      = addressed pre check src dst (withPorts r.srcPort r.dstPort rest) := by
  have hlen := length_addressed pre check src dst [] hpre
  rw [List.length_nil, Nat.add_zero] at hlen
  rw [addressed_append _ _ _ _ (withPorts sport dport rest),
    addressed_append _ _ _ _ (withPorts r.srcPort r.dstPort rest), setPorts,
    Bytes.setU16, Bytes.setU16, withPorts]
  have hfirst := writeLE_append_right (addressed pre check src dst [])
    (toLE 2 (fromBe sport).toNat ++
    (toLE 2 (fromBe dport).toNat ++ rest)) 0 2 (fromBe r.srcPort).toNat
  have hsecond := writeLE_append_right (addressed pre check src dst [])
    (toLE 2 (fromBe r.srcPort).toNat ++ (toLE 2 (fromBe dport).toNat ++ rest)) 2 2
    (fromBe r.dstPort).toNat
  rw [hlen, Nat.add_zero, writeLE_toLE] at hfirst
  rw [hlen, writeLE_toLE_skip 2 _ _ 0, writeLE_toLE] at hsecond
  rw [ipv4HdrLen, hfirst, hsecond, withPorts]

/-- A packet after a rule was applied, field by field. -/
theorem rewrittenBy_eq (p : Bytes) (r : Rewrite) (h : 24 ≤ p.length) :
    rewrittenBy p r = addressed (p.take 10) (updateChecksumIp (updateChecksumIp (Bytes.u16 p 10)
      (Bytes.u32 p 12) r.srcIp) (Bytes.u32 p 16) r.dstIp) r.srcIp r.dstIp
      (withPorts r.srcPort r.dstPort (p.drop 24)) := by
  have hpre := length_take_ten p (by omega)
  have hself := addressed_self p (by omega)
  rw [← withPorts_self p 20 h] at hself
  have hset := setAddresses_addressed (p.take 10) (Bytes.u16 p 10) (Bytes.u32 p 12) (Bytes.u32 p 16)
    (withPorts (fromBe (Bytes.u16 p 20)) (fromBe (Bytes.u16 p (20 + 2))) (p.drop (20 + 4))) hpre r
  rw [hself] at hset
  rw [rewrittenBy, hset, setPorts_addressed _ _ _ _ _ _ _ _ hpre]

/-- The ports count as the numbers they are. -/
theorem wordSum_take_withPorts (n : Nat) (hn : 4 ≤ n) :
    (wordSum ((withPorts sport dport rest).take n) : ZMod 65535)
      = sport.toNat + dport.toNat + wordSum (rest.take (n - 4)) := by
  have hport : ∀ x : UInt16, (wordSum (toLE 2 (fromBe x).toNat) : ZMod 65535) = x.toNat := by
    intro x
    have hback := fromBe_cast (fromBe x)
    rw [fromBe_fromBe] at hback
    rw [wordSum_toLE_two _ (fromBe x).toNat_lt, hback]
  have htake : (withPorts sport dport rest).take n = withPorts sport dport (rest.take (n - 4)) := by
    rw [withPorts, List.take_append, List.take_of_length_le (by rw [length_toLE]; omega),
      length_toLE,
      List.take_append, List.take_of_length_le (by rw [length_toLE]; omega), length_toLE, withPorts,
      Nat.sub_sub]
  rw [htake, withPorts, wordSum_append _ _ (by rw [length_toLE]),
    wordSum_append _ _ (by rw [length_toLE]), Nat.cast_add, Nat.cast_add, hport, hport]
  ring

end Ports

/-- `apply_rewrite` finds a transport header behind twenty bytes. -/
def PortsWritten (ctx : BpfContext) (c : Connection) : Prop :=
  (c.protocol = ipProtoTcp ∧ 40 ≤ ctx.packet.length) ∨
    (c.protocol = ipProtoUdp ∧ 28 ≤ ctx.packet.length)

instance (ctx : BpfContext) (c : Connection) : Decidable (PortsWritten ctx c) :=
  inferInstanceAs (Decidable ((_ ∧ _) ∨ (_ ∧ _)))

/-- What `apply_rewrite` writes: the addresses, and the ports if there is a
    transport header. -/
theorem applyRewrite_packet (ctx : BpfContext) (c : Connection) (r : Rewrite)
    (h : 20 ≤ ctx.packet.length) :
    (PortsWritten ctx c ∧ (applyRewrite ctx c r).1 = setPorts (setAddresses ctx.packet r) r) ∨
      (¬ PortsWritten ctx c ∧ (applyRewrite ctx c r).1 = setAddresses ctx.packet r) := by
  have hip : ctx.getPtr 0 ipv4HdrLen = true := decide_eq_true h
  have htcp : ctx.getPtr ipv4HdrLen tcpHdrLen = true ↔ 40 ≤ ctx.packet.length := decide_eq_true_iff
  have hudp : ctx.getPtr ipv4HdrLen udpHdrLen = true ↔ 28 ≤ ctx.packet.length := decide_eq_true_iff
  have hne : ¬ ipProtoUdp = ipProtoTcp := by decide
  have hne' : ¬ ipProtoTcp = ipProtoUdp := by decide
  unfold applyRewrite PortsWritten
  rw [← htcp, ← hudp, hip]
  by_cases ht : c.protocol = ipProtoTcp
  · by_cases hptr : ctx.getPtr ipv4HdrLen tcpHdrLen = true
    · left
      simp only [ht, hptr, if_true, and_self, true_or, Bool.not_true, Bool.false_eq_true, if_false]
    · right
      simp only [ht, hptr, hne', if_true, Bool.not_true, Bool.false_eq_true, if_false,
        and_false, false_and, or_self, not_false_eq_true, and_self]
  · by_cases hu : c.protocol = ipProtoUdp
    · by_cases hptr : ctx.getPtr ipv4HdrLen udpHdrLen = true
      · left
        simp only [hu, hptr, hne, if_true, and_self, or_true, Bool.not_true, Bool.false_eq_true,
          if_false]
      · right
        simp only [hu, hptr, hne, if_true, Bool.not_true, Bool.false_eq_true, if_false, and_false,
          false_and, or_self, not_false_eq_true, and_self]
    · right
      simp only [ht, hu, Bool.not_true, Bool.false_eq_true, if_false, false_and, or_self,
        not_false_eq_true, and_self]

/-- What the ports replace in the header adds up to what they do. -/
def OptionsKept (p : Bytes) (r : Rewrite) : Prop :=
  Bytes.be16 p 20 + Bytes.be16 p 22 ≡ r.srcPort.toNat + r.dstPort.toNat [MOD 65535]

/-- What the ports of a rule add to the sum of the header. -/
def portChange (p : Bytes) (r : Rewrite) : ZMod 65535 :=
  if Bytes.ihl p = 5 then 0
  else (r.srcPort.toNat + r.dstPort.toNat : Nat) - (Bytes.be16 p 20 + Bytes.be16 p 22 : Nat)

theorem portChange_eq_zero (p : Bytes) (r : Rewrite) :
    portChange p r = 0 ↔ Bytes.ihl p = 5 ∨ OptionsKept p r := by
  unfold portChange OptionsKept
  by_cases hfive : Bytes.ihl p = 5
  · rw [if_pos hfive]
    exact ⟨fun _ => .inl hfive, fun _ => rfl⟩
  · rw [if_neg hfive, sub_eq_zero, eq_comm, ZMod.natCast_eq_natCast_iff]
    exact ⟨.inr, fun h => h.resolve_left hfive⟩

section Rewrite

variable (p : Bytes) (r : Rewrite) (h : Ipv4 p)

include h

theorem Ipv4.length : 20 ≤ p.length := by
  have hihl := h.ihl
  have hheader := h.header
  omega

/-- The addresses change with the checksum: the header adds up as before. -/
theorem wordSum_setAddresses :
    Ipv4 (setAddresses p r) ∧
      (wordSum (ipHeader (setAddresses p r)) : ZMod 65535) = wordSum (ipHeader p) := by
  have hlen := Ipv4.length p h
  have hpre := length_take_ten p (by omega)
  have hself := addressed_self p hlen
  rw [← hself] at h
  have hihl := h.ihl
  rw [ihl_addressed _ _ _ _ _ hpre] at hihl
  rw [← hself, setAddresses_addressed _ _ _ _ _ hpre]
  refine ⟨ipv4_addressed _ _ _ _ _ hpre h _ _ _ _ rfl, ?_⟩
  rw [ipHeader_addressed _ _ _ _ _ hpre hihl, ipHeader_addressed _ _ _ _ _ hpre hihl,
    wordSum_addressed _ _ _ _ _ hpre, wordSum_addressed _ _ _ _ _ hpre, updateChecksumIp_cast,
    updateChecksumIp_cast]
  ring

/-- The ports are not in the header, or they replace two words of it. -/
theorem wordSum_setPorts (hports : 24 ≤ p.length) :
    Ipv4 (setPorts p r) ∧
      (wordSum (ipHeader (setPorts p r)) : ZMod 65535) = wordSum (ipHeader p) + portChange p r := by
  have hlen := Ipv4.length p h
  have hpre := length_take_ten p (by omega)
  have hself := addressed_self p hlen
  have hrest := withPorts_self p 20 (by omega)
  have hcount : (p.drop 20).length = (withPorts r.srcPort r.dstPort (p.drop 24)).length := by
    rw [length_withPorts, List.length_drop, List.length_drop]
    omega
  have hsource : Bytes.be16 p 20 = (fromBe (Bytes.u16 p 20)).toNat := rfl
  have hdest : Bytes.be16 p 22 = (fromBe (Bytes.u16 p (20 + 2))).toNat := rfl
  have hset : setPorts p r = addressed (p.take 10) (Bytes.u16 p 10) (Bytes.u32 p 12)
      (Bytes.u32 p 16) (withPorts r.srcPort r.dstPort (p.drop 24)) := by
    rw [← setPorts_addressed (fromBe (Bytes.u16 p 20)) (fromBe (Bytes.u16 p (20 + 2))) _ _ _ _ _ _
      hpre, hrest, hself]
  have h' := h
  rw [← hself] at h'
  have hihl := h'.ihl
  rw [ihl_addressed _ _ _ _ _ hpre] at hihl
  have hihl' : Bytes.ihl p = Bytes.ihl (p.take 10) := by
    conv => lhs; rw [← hself]
    exact ihl_addressed _ _ _ _ _ hpre
  refine ⟨?_, ?_⟩
  · rw [hset]
    exact ipv4_addressed _ _ _ _ _ hpre h' _ _ _ _ hcount.symm
  · have hold : (wordSum (ipHeader p) : ZMod 65535) = wordSum (ipHeader (addressed (p.take 10)
        (Bytes.u16 p 10) (Bytes.u32 p 12) (Bytes.u32 p 16) (p.drop 20))) := by rw [hself]
    rw [hset, hold, ipHeader_addressed _ _ _ _ _ hpre hihl, ipHeader_addressed _ _ _ _ _ hpre hihl,
      wordSum_addressed _ _ _ _ _ hpre, wordSum_addressed _ _ _ _ _ hpre, portChange, hihl']
    -- Without options the ports are behind the header.
    by_cases hfive : Bytes.ihl (p.take 10) = 5
    · rw [if_pos hfive, hfive, List.take_zero, List.take_zero, add_zero]
    · rw [if_neg hfive, ← hrest, wordSum_take_withPorts _ _ _ _ (by omega),
        wordSum_take_withPorts _ _ _ _ (by omega), ← hsource, ← hdest, Nat.cast_add, Nat.cast_add]
      ring

/-- The bytes behind the addresses are not touched by them. -/
theorem portChange_setAddresses : portChange (setAddresses p r) r = portChange p r := by
  have hlen := Ipv4.length p h
  have hpre := length_take_ten p (by omega)
  have hrest : ∀ check src dst off, Bytes.be16 (addressed (p.take 10) check src dst (p.drop 20))
      (20 + off) = Bytes.be16 (p.drop 20) off := by
    intro check src dst off
    have hcount := length_addressed (p.take 10) check src dst [] hpre
    rw [List.length_nil] at hcount
    rw [Bytes.be16, Bytes.u16, addressed_append, readLE_append_right _ _ _ _ (by omega), hcount,
      Nat.add_sub_cancel_left]
    rfl
  rw [← addressed_self p hlen, setAddresses_addressed _ _ _ _ _ hpre, portChange, portChange,
    ihl_addressed _ _ _ _ _ hpre, ihl_addressed _ _ _ _ _ hpre, hrest _ _ _ 0, hrest _ _ _ 0,
    hrest _ _ _ 2, hrest _ _ _ 2]

/-- The sum of the header after a rewrite. -/
theorem wordSum_applyRewrite (c : Connection) (port : UInt32) :
    Ipv4 (applyRewrite ⟨p, port⟩ c r).1 ∧
      (wordSum (ipHeader (applyRewrite ⟨p, port⟩ c r).1) : ZMod 65535) = wordSum (ipHeader p) +
        if PortsWritten ⟨p, port⟩ c then portChange p r else 0 := by
  rcases wordSum_setAddresses p r h with ⟨hip, hsum⟩
  rcases applyRewrite_packet ⟨p, port⟩ c r (Ipv4.length p h) with ⟨hports, heq⟩ | ⟨hports, heq⟩
  · have hlong : 24 ≤ (setAddresses p r).length := by
      rw [(setAddresses_fields p r (Ipv4.length p h)).1]
      rcases hports with ⟨-, hlen⟩ | ⟨-, hlen⟩
      · exact Nat.le_trans (by decide) hlen
      · exact Nat.le_trans (by decide) hlen
    rcases wordSum_setPorts (setAddresses p r) r hip hlong with ⟨hip', hsum'⟩
    rw [heq, if_pos hports, hsum', hsum, portChange_setAddresses p r h]
    exact ⟨hip', rfl⟩
  · rw [heq, if_neg hports, hsum, add_zero]
    exact ⟨hip, rfl⟩

/-- The stored checksum after a rewrite is `0xffff` only if it was. -/
theorem check_applyRewrite (c : Connection) (port : UInt32) (hc : (Bytes.u16 p 10).toNat ≠ 65535) :
    (Bytes.u16 (applyRewrite ⟨p, port⟩ c r).1 10).toNat ≠ 65535 := by
  have hlen := Ipv4.length p h
  have hpre := length_take_ten p (by omega)
  have hcheck : (Bytes.u16 (setAddresses p r) 10).toNat ≠ 65535 := by
    rw [← addressed_self p hlen, setAddresses_addressed _ _ _ _ _ hpre,
      u16_addressed _ _ _ _ _ hpre]
    exact updateChecksumIp_ne _ _ _ (updateChecksumIp_ne _ _ _ hc)
  rcases applyRewrite_packet ⟨p, port⟩ c r hlen with ⟨hports, heq⟩ | ⟨-, heq⟩
  · have hlong : 24 ≤ (setAddresses p r).length := by
      rw [(setAddresses_fields p r hlen).1]
      rcases hports with ⟨-, hlen'⟩ | ⟨-, hlen'⟩
      · exact Nat.le_trans (by decide) hlen'
      · exact Nat.le_trans (by decide) hlen'
    have h₁ := Bytes.length_setU16 (setAddresses p r) 20 (fromBe r.srcPort) (by omega)
    have hkept :
        Bytes.u16 (setPorts (setAddresses p r) r) 10 = Bytes.u16 (setAddresses p r) 10 := by
      rw [Bytes.u16, setPorts, ipv4HdrLen, Bytes.readLE_setU16 _ _ _ _ _ (by omega) (by omega),
        Bytes.readLE_setU16 _ _ _ _ _ (by omega) (by omega)]
      rfl
    rw [heq, hkept]
    exact hcheck
  · rw [heq]
    exact hcheck

end Rewrite

/-- The stored checksum is the one computed from scratch. -/
def Recomputed (p : Bytes) : Prop :=
  Bytes.be16 p 10 = headerChecksum p

theorem recomputed_iff_ne (p : Bytes) (h : Ipv4 p) (hv : HeaderVerifies p) :
    Recomputed p ↔ (Bytes.u16 p 10).toNat ≠ 65535 := by
  have hlen := Ipv4.length p h
  have hpre := length_take_ten p (by omega)
  have hself := addressed_self p hlen
  have hiff := recomputed_iff (p.take 10) (Bytes.u16 p 10) (Bytes.u32 p 12) (Bytes.u32 p 16)
    (p.drop 20) hpre
  rw [hself] at hiff
  exact hiff h hv

/-- After a rewrite the header adds up again, and has the checksum computed
    from scratch if it had, exactly when the ports are behind the header, are
    not written, or add up to the options they are written over. -/
theorem header_checksum_iff (ctx : BpfContext) (c : Connection) (r : Rewrite) (h : Ipv4 ctx.packet)
    (hv : HeaderVerifies ctx.packet) :
    (HeaderVerifies (applyRewrite ctx c r).1 ∧
      (Recomputed ctx.packet → Recomputed (applyRewrite ctx c r).1)) ↔
    Bytes.ihl ctx.packet = 5 ∨ ¬ PortsWritten ctx c ∨ OptionsKept ctx.packet r := by
  rcases ctx with ⟨p, port⟩
  rcases wordSum_applyRewrite p r h c port with ⟨hip, hsum⟩
  have hold := (headerVerifies_iff p h).mp hv
  have hverifies : HeaderVerifies (applyRewrite ⟨p, port⟩ c r).1 ↔
      Bytes.ihl p = 5 ∨ ¬ PortsWritten ⟨p, port⟩ c ∨ OptionsKept p r := by
    rw [headerVerifies_iff _ hip, hsum, hold, zero_add]
    by_cases hports : PortsWritten ⟨p, port⟩ c
    · rw [if_pos hports, portChange_eq_zero]
      exact ⟨fun hor => hor.imp_right .inr,
        fun hor => hor.imp_right (·.resolve_left (not_not.mpr hports))⟩
    · rw [if_neg hports]
      exact ⟨fun _ => .inr (.inl hports), fun _ => rfl⟩
  refine ⟨fun hboth => hverifies.mp hboth.1, ?_⟩
  intro hcond
  have hnew := hverifies.mpr hcond
  refine ⟨hnew, ?_⟩
  intro hrecomputed
  rw [recomputed_iff_ne _ hip hnew]
  exact check_applyRewrite p r h c port ((recomputed_iff_ne p h hv).mp hrecomputed)

/-- A question to 8.8.8.8:53 from 172.44.0.2:50000. -/
def plainPacket : Bytes :=
  [0x45, 0, 0, 28, 0, 0, 0, 0, 64, 17, 0xbe, 0x93, 172, 44, 0, 2, 8, 8, 8, 8,
    0xc3, 0x50, 0, 53, 0, 8, 0, 0]

/-- The same with four bytes of options. -/
def optionsPacket : Bytes :=
  [0x46, 0, 0, 32, 0, 0, 0, 0, 64, 17, 0xbb, 0x8d, 172, 44, 0, 2, 8, 8, 8, 8, 1, 1, 1, 1,
    0xc3, 0x50, 0, 53, 0, 8, 0, 0]

/-- The rule of a new flow is applied to a packet without options. -/
theorem header_checksum_plain :
    Ipv4 plainPacket ∧ HeaderVerifies plainPacket ∧ HeaderVerifies (applyRewrite ⟨plainPacket, 0⟩
      ⟨0x02002cac, 50000, 0x08080808, 53, ipProtoUdp⟩
      (outgoingRewrite ⟨0x02002cac, 50000, 0x08080808, 53, ipProtoUdp⟩ 50000)).1 := by
  have hip : Ipv4 plainPacket := ⟨by decide, by decide, by decide⟩
  have hv : HeaderVerifies plainPacket := by decide
  exact ⟨hip, hv, ((header_checksum_iff ⟨plainPacket, 0⟩ _ _ hip hv).mpr (.inl (by decide))).1⟩

/-- To a packet with options it is applied with two words of the header
    replaced, and the checksum is wrong. -/
theorem header_checksum_options :
    Ipv4 optionsPacket ∧ HeaderVerifies optionsPacket ∧
    connectionOf ⟨optionsPacket, 0⟩ = some ⟨0x02002cac, 257, 0x08080808, 257, ipProtoUdp⟩ ∧
    ¬ HeaderVerifies (applyRewrite ⟨optionsPacket, 0⟩ ⟨0x02002cac, 257, 0x08080808, 257, ipProtoUdp⟩
      (outgoingRewrite ⟨0x02002cac, 257, 0x08080808, 257, ipProtoUdp⟩ 50000)).1 := by
  refine ⟨⟨by decide, by decide, by decide⟩, by decide, by decide, by decide⟩

end UniBPF
