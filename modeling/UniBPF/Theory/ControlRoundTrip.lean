import UniBPF.Core.Control
import UniBPF.Lib.LittleEndian

/-!
# The Control Protocol Round Trip

Whether `Control::push` understands what `reconfigure` sends.

The parser is walked over the packet piece by piece. A packet that splits
into a prefix, the piece and a rest shows the piece at the address after the
prefix (`view_split`), and a length followed by a string of that length is
read back whole (`controlString_split`). Nothing wraps, since the packet ends
inside the address space and a datagram is short.

That leaves the first check. It reads the length field with its bytes
swapped, so it does not ask whether the datagram is long enough: it fails
exactly when the low byte of the length is zero and the high byte is below
31. `uhUlen_datagram` computes the field, and the round trip holds precisely
for the other lengths.

## Main definitions

* `Unswappable`: The lengths the first check turns away.

## Theorems

* `view_split`: A piece of the packet at the address after its prefix.
* `controlString_split`: A length-prefixed string is read back.
* `uhUlen_datagram`: The length field as the first check sees it.
* `controlPush_reconfigure`: What the parser answers to `reconfigure`.
* `control_round_trip_iff`: The round trip holds for exactly the lengths that
  survive the swap.
-/

namespace UniBPF

open LittleEndian

/-- The UDP lengths whose bytes, swapped, spell a number below 31. -/
def Unswappable (length : Nat) : Prop :=
  256 ∣ length ∧ length < 7936

instance (length : Nat) : Decidable (Unswappable length) :=
  inferInstanceAs (Decidable (_ ∧ _))

theorem view_split (p : UdpPacket) (pre s post : Bytes) (h : p.bytes = pre ++ (s ++ post)) :
    p.view (p.addr + pre.length) s.length = some s := by
  have hin : p.addr ≤ p.addr + pre.length ∧ p.addr + pre.length + s.length ≤ p.endData := by
    rw [UdpPacket.endData, h, List.length_append, List.length_append]
    omega
  rw [UdpPacket.view, if_pos hin, Nat.add_sub_cancel_left, h, List.drop_left, List.take_left]

theorem read64_split (p : UdpPacket) (pre post : Bytes) (n : Nat)
    (h : p.bytes = pre ++ (toLE 8 n ++ post)) (hn : n < 2 ^ 64) :
    p.read64 (p.addr + pre.length) = some n := by
  have hview := view_split p pre (toLE 8 n) post h
  rw [length_toLE] at hview
  have hfull : n % 256 ^ 8 = n := Nat.mod_eq_of_lt (by omega)
  rw [UdpPacket.read64, hview, Option.map_some, ofLE_toLE, hfull]

/-- Inside a packet pointer sums are plain sums. -/
theorem ptrAdd_of_le (p : UdpPacket) (a n : Nat) (h : a + n ≤ p.endData) : ptrAdd a n = a + n := by
  have hfits := p.fits
  rw [UdpPacket.endData] at h
  rw [ptrAdd, Nat.mod_eq_of_lt (by omega)]

theorem clickString_split (p : UdpPacket) (pre s post : Bytes)
    (h : p.bytes = pre ++ (s ++ post)) (hs : s.length < 2 ^ 31) :
    clickString p (p.addr + pre.length) s.length = some s := by
  have hint : s.length % 2 ^ 32 = s.length := Nat.mod_eq_of_lt (by omega)
  rw [clickString, hint, if_pos hs]
  exact view_split p pre s post h

/-- A length and a string of that length are read back, and the address moves
    past both. -/
theorem controlString_split (p : UdpPacket) (pre s post : Bytes) (e : ControlError)
    (h : p.bytes = pre ++ (toLE 8 s.length ++ (s ++ post))) (hs : s.length < 2 ^ 31) :
    controlString p (p.addr + pre.length) e
      = some (.ok (s, p.addr + (pre ++ (toLE 8 s.length ++ s)).length)) := by
  have hlen : p.bytes.length = pre.length + (8 + (s.length + post.length)) := by
    rw [h, List.length_append, List.length_append, List.length_append, length_toLE]
  have hread := read64_split p pre (s ++ post) s.length h (by omega)
  have hstart : ptrAdd (p.addr + pre.length) 8 = p.addr + (pre ++ toLE 8 s.length).length := by
    rw [ptrAdd_of_le p _ _ (by rw [UdpPacket.endData]; omega), List.length_append, length_toLE,
      Nat.add_assoc]
  have hend : ptrAdd (p.addr + (pre ++ toLE 8 s.length).length) s.length
      = p.addr + (pre ++ (toLE 8 s.length ++ s)).length := by
    rw [ptrAdd_of_le p _ _ (by
      rw [UdpPacket.endData, List.length_append, length_toLE]
      omega)]
    simp only [List.length_append, length_toLE]
    omega
  have hstring := clickString_split p (pre ++ toLE 8 s.length) s post
    (by rw [h, List.append_assoc]) hs
  have hinside : ¬ p.endData < p.addr + (pre ++ (toLE 8 s.length ++ s)).length := by
    simp only [UdpPacket.endData, List.length_append, length_toLE]
    omega
  simp only [controlString, hread, hstart, hend, if_neg hinside, hstring]

/-- The length field of a datagram, as a little-endian machine loads it. -/
theorem uhUlen_datagram (p : UdpPacket) (sport dport checksum : Nat) (payload padding : Bytes)
    (h : p.bytes = udpDatagram sport dport checksum payload padding)
    (hfit : 8 + payload.length < 65536) :
    uhUlen p = (8 + payload.length) / 256 + 256 * ((8 + payload.length) % 256) := by
  have hpieces : p.bytes = (toBE16 sport ++ toBE16 dport) ++ (toBE16 (8 + payload.length) ++
      (toBE16 checksum ++ (payload ++ padding))) := by
    rw [h, udpDatagram, List.append_assoc]
  -- The high byte comes first on the wire and is read as the low one.
  have hhigh : (UInt8.ofNat ((8 + payload.length) / 256)).toNat = (8 + payload.length) / 256 := by
    rw [UInt8.toNat_ofNat']
    omega
  have hlow : (UInt8.ofNat (8 + payload.length)).toNat = (8 + payload.length) % 256 :=
    UInt8.toNat_ofNat' ..
  rw [uhUlen, hpieces, readLE_append_right _ _ 4 2 (by simp only [toBE16, List.length_append,
    List.length_cons, List.length_nil, le_refl])]
  rw [readLE_append_left _ _ _ 2 (by simp only [toBE16, List.length_append, List.length_cons,
    List.length_nil, le_refl])]
  simp only [toBE16, readLE, List.length_append, List.length_cons, List.length_nil, Nat.sub_self,
    List.drop_zero, List.take, ofLE, hhigh, hlow, Nat.mul_zero, Nat.add_zero]

/-- The first check fails on exactly the unswappable lengths. -/
theorem swapped_lt_iff (length : Nat) :
    length / 256 + 256 * (length % 256) < 31 ↔ Unswappable length := by
  unfold Unswappable
  constructor
  · intro h
    exact ⟨Nat.dvd_of_mod_eq_zero (by omega), by omega⟩
  · rintro ⟨hdvd, hlt⟩
    have hmod := Nat.mod_eq_zero_of_dvd hdvd
    omega

theorem length_reconfigure (name sig : Bytes) :
    (reconfigure name sig).length = 31 + name.length + sig.length := by
  simp only [reconfigure, controlMagic, List.length_append, List.length_cons, List.length_nil,
    length_toLE]
  omega

/-- Past the first check every field is read back, whatever the header. -/
theorem controlPush_fields (p : UdpPacket) (header name sig padding : Bytes)
    (hheader : header.length = 8) (h : p.bytes = header ++ (reconfigure name sig ++ padding))
    (hname : name.length < 2 ^ 31) (hsig : sig.length < 2 ^ 31) (hlong : ¬ uhUlen p < 31) :
    controlPush p = some (.ok ⟨1, name, sig⟩) := by
  -- The packet split at each place the parser stops at.
  have hatMagic : p.bytes = header ++ (controlMagic ++ (toLE 8 1 ++ (toLE 8 name.length ++ (name ++
      (toLE 8 sig.length ++ (sig ++ padding)))))) := by
    simp only [h, reconfigure, List.append_assoc]
  have hatId : p.bytes = (header ++ controlMagic) ++ (toLE 8 1 ++ (toLE 8 name.length ++ (name ++
      (toLE 8 sig.length ++ (sig ++ padding))))) := by
    simp only [h, reconfigure, List.append_assoc]
  have hatName : p.bytes = (header ++ (controlMagic ++ toLE 8 1)) ++ (toLE 8 name.length ++ (name ++
      (toLE 8 sig.length ++ (sig ++ padding)))) := by
    simp only [h, reconfigure, List.append_assoc]
  have hatSig :
    p.bytes = ((header ++ (controlMagic ++ toLE 8 1)) ++ (toLE 8 name.length ++ name)) ++
      (toLE 8 sig.length ++ (sig ++ padding)) := by
    simp only [h, reconfigure, List.append_assoc]
  have hend : p.addr + 39 ≤ p.endData := by
    simp only [UdpPacket.endData, hatMagic, List.length_append, length_toLE, hheader, controlMagic,
      List.length_cons, List.length_nil]
    omega
  have hpre7 : ptrAdd (p.addr + 8) 7 = p.addr + (header ++ controlMagic).length := by
    rw [ptrAdd_of_le p _ _ (by omega), List.length_append, hheader]
    rfl
  have hpre15 : ptrAdd (p.addr + 8) 15
      = p.addr + (header ++ (controlMagic ++ toLE 8 1)).length := by
    rw [ptrAdd_of_le p _ _ (by omega), List.length_append, List.length_append, hheader, length_toLE]
    rfl
  have hview : p.view (p.addr + 8) 7 = some controlMagic := by
    have hsplit := view_split p header controlMagic _ hatMagic
    rwa [hheader] at hsplit
  have hread := read64_split p (header ++ controlMagic) _ 1 hatId (by norm_num)
  have hstring := controlString_split p (header ++ (controlMagic ++ toLE 8 1)) name _
    .invalidProgramNameLen hatName hname
  have hsigString := controlString_split p
    ((header ++ (controlMagic ++ toLE 8 1)) ++ (toLE 8 name.length ++ name)) sig _
    .invalidSignatureLen hatSig hsig
  simp only [controlPush, if_neg hlong, hview, ne_eq, not_true_eq_false, if_false, hpre7, hread,
    hpre15, hstring, hsigString]

section Datagram

variable (p : UdpPacket) (sport dport checksum : Nat) (name sig padding : Bytes)
  (h : p.bytes = udpDatagram sport dport checksum (reconfigure name sig) padding)
  (hfit : 8 + (reconfigure name sig).length < 65536)

include h hfit

/-- The parser's answer to the payload of `reconfigure`, for every length. -/
theorem controlPush_reconfigure :
    controlPush p = if Unswappable (39 + name.length + sig.length) then some (.error .invalidLength)
      else some (.ok ⟨1, name, sig⟩) := by
  have hulen := uhUlen_datagram p sport dport checksum _ padding h hfit
  have hsum : 8 + (31 + name.length + sig.length) = 39 + name.length + sig.length := by omega
  rw [length_reconfigure, hsum] at hulen
  -- The first check sees the length with its bytes swapped.
  have hcheck := swapped_lt_iff (39 + name.length + sig.length)
  rw [← hulen] at hcheck
  by_cases hbad : Unswappable (39 + name.length + sig.length)
  · rw [if_pos hbad]
    simp only [controlPush, if_pos (hcheck.mpr hbad)]
  · rw [if_neg hbad]
    rw [length_reconfigure] at hfit
    exact controlPush_fields p (toBE16 sport ++ (toBE16 dport ++
      (toBE16 (8 + (reconfigure name sig).length) ++ toBE16 checksum))) name sig padding rfl
      (by simp only [h, udpDatagram, List.append_assoc]) (by omega) (by omega)
      (fun hlt => hbad (hcheck.mp hlt))

/-- The round trip, exactly: the parser returns what `reconfigure` was given
    unless the length of the datagram is a multiple of 256 below 7936. -/
theorem control_round_trip_iff :
    controlPush p = some (.ok ⟨1, name, sig⟩) ↔
      ¬ (256 ∣ 39 + name.length + sig.length ∧ 39 + name.length + sig.length < 7936) := by
  rw [controlPush_reconfigure p sport dport checksum name sig padding h hfit]
  by_cases hbad : Unswappable (39 + name.length + sig.length)
  · rw [if_pos hbad]
    refine ⟨fun heq => absurd heq (by simp only [Option.some.injEq, reduceCtorEq,
      not_false_eq_true]), fun hgood => absurd hbad hgood⟩
  · rw [if_neg hbad]
    exact ⟨fun _ => hbad, fun _ => rfl⟩

end Datagram

/-- A datagram for the program `filter` with the signature `sig`. -/
def filterDatagram : UdpPacket where
  addr := 0x1000
  bytes := udpDatagram 40000 4444 0
    (reconfigure [0x66, 0x69, 0x6c, 0x74, 0x65, 0x72] [0x73, 0x69, 0x67]) []
  fits := by decide

theorem control_round_trip_filter :
    8 + (reconfigure [0x66, 0x69, 0x6c, 0x74, 0x65, 0x72] [0x73, 0x69, 0x67]).length < 65536 ∧
      (controlPush filterDatagram
          = some (.ok ⟨1, [0x66, 0x69, 0x6c, 0x74, 0x65, 0x72], [0x73, 0x69, 0x67]⟩) ↔
        ¬ (256 ∣ 39 + 6 + 3 ∧ 39 + 6 + 3 < 7936)) :=
  ⟨by decide, control_round_trip_iff filterDatagram 40000 4444 0 _ _ [] rfl (by decide)⟩

/-- A datagram of 256 bytes: a program name of 217 bytes and no signature. -/
def longNameDatagram : UdpPacket where
  addr := 0x1000
  bytes := udpDatagram 40000 4444 0 (reconfigure (List.replicate 217 0x61) []) []
  fits := by
    simp only [udpDatagram, toBE16, List.length_append, List.length_cons, List.length_nil,
      length_reconfigure, List.length_replicate]
    omega

/-- It is turned away as too short. -/
theorem control_round_trip_fails :
    8 + (reconfigure (List.replicate 217 0x61) []).length < 65536 ∧
      controlPush longNameDatagram = some (.error .invalidLength) ∧
      controlPush longNameDatagram ≠ some (.ok ⟨1, List.replicate 217 0x61, []⟩) := by
  have hfit : 8 + (reconfigure (List.replicate 217 0x61) []).length < 65536 := by
    rw [length_reconfigure, List.length_replicate, List.length_nil]
    omega
  have hanswer := controlPush_reconfigure longNameDatagram 40000 4444 0 _ _ [] rfl hfit
  rw [List.length_replicate, List.length_nil, if_pos (by decide)] at hanswer
  refine ⟨hfit, hanswer, ?_⟩
  rw [hanswer]
  simp only [ne_eq, Option.some.injEq, reduceCtorEq, not_false_eq_true]

end UniBPF
