import UniBPF.Core.Inst

/-!
# Packets as Programs See Them

`ebpf/src/lib.rs`: the context a program is handed, its bounds check, and the
incremental checksum.

A program reads the packet through pointers it gets from `get_ptr`, which
answers only when the whole object lies before `data_end`. The pointers are
not carried here: an access is to the bytes of the packet at an offset, and
`getPtr` says whether the program goes on to make it. A packet ends before
the end of the address space, so the sums of the check do not wrap.

The machine is little endian. A field of a header is read as it lies in
memory; the fields in network byte order are turned by `fromBe`.

## Main definitions

* `BpfContext`, `BpfContext.getPtr`: The context and the bounds check.
* `Bytes.u8`, `Bytes.u16`, `Bytes.u32`, `Bytes.u64`, `Bytes.setU16`,
  `Bytes.setU32`: Fields.
* `fromBe`: `u16::from_be`, and `to_be`, which is the same.
* `updateChecksum`, `updateChecksumIp`: The incremental checksum.

## Theorems

* `fromBe_fromBe`: Turning a field twice.
* `Bytes.u16_setU16`, `Bytes.u32_setU32`: A field is read as it was set.
* `Bytes.readLE_setU16`, `Bytes.readLE_setU32`: Setting a field leaves the
  others as they were.
-/

namespace UniBPF

open LittleEndian

/-- `struct BpfContext`. -/
structure BpfContext where
  packet : Bytes
  port : UInt32

/-- `get_ptr` and `get_ptr_mut` for an object of `len` bytes: whether they
    answer with a pointer. -/
def BpfContext.getPtr (ctx : BpfContext) (offset len : Nat) : Bool :=
  decide (offset + len ≤ ctx.packet.length)

/-- One byte of the packet. -/
def Bytes.u8 (p : Bytes) (off : Nat) : UInt8 :=
  UInt8.ofNat (readLE p off 1)

/-- A 16-bit field, as it lies in memory. -/
def Bytes.u16 (p : Bytes) (off : Nat) : UInt16 :=
  UInt16.ofNat (readLE p off 2)

def Bytes.u32 (p : Bytes) (off : Nat) : UInt32 :=
  UInt32.ofNat (readLE p off 4)

def Bytes.u64 (p : Bytes) (off : Nat) : UInt64 :=
  UInt64.ofNat (readLE p off 8)

def Bytes.setU16 (p : Bytes) (off : Nat) (v : UInt16) : Bytes :=
  writeLE p off 2 v.toNat

def Bytes.setU32 (p : Bytes) (off : Nat) (v : UInt32) : Bytes :=
  writeLE p off 4 v.toNat

/-- `u16::from_be` and `u16::to_be`. -/
def fromBe (x : UInt16) : UInt16 :=
  x <<< 8 ||| x >>> 8

@[simp] theorem fromBe_fromBe (x : UInt16) : fromBe (fromBe x) = x := by
  apply UInt16.eq_of_toBitVec_eq
  ext i hi
  have hpast : x.toBitVec.getLsbD (8 + (8 + i)) = false := BitVec.getLsbD_of_ge _ _ (by omega)
  have hself : x.toBitVec.getLsbD i = x.toBitVec[i] := BitVec.getLsbD_eq_getElem hi
  simp only [fromBe, UInt16.toBitVec_or, UInt16.toBitVec_shiftLeft, UInt16.toBitVec_shiftRight]
  by_cases hlow : i < 8
  · have hlow' : 8 + i < 16 := by omega
    simp [hlow, hlow', hpast]
  · have hback : 8 + (i - 8) = i := by omega
    have hhigh : ¬ 8 + i < 16 := by omega
    have hnext : i - 8 < 8 := by omega
    simp [hlow, hhigh, hnext, hback, hpast, hself]

/-- A 16-bit number at the start of a string is read back. -/
theorem ofNat_readLE_u16 (x : UInt16) (bs : Bytes) :
    UInt16.ofNat (readLE (toLE 2 x.toNat ++ bs) 0 2) = x := by
  rw [readLE_toLE, Nat.mod_eq_of_lt (by exact x.toNat_lt), UInt16.ofNat_toNat]

theorem ofNat_readLE_u32 (x : UInt32) (bs : Bytes) :
    UInt32.ofNat (readLE (toLE 4 x.toNat ++ bs) 0 4) = x := by
  rw [readLE_toLE, Nat.mod_eq_of_lt (by exact x.toNat_lt), UInt32.ofNat_toNat]

section Fields

variable (p : Bytes) (off : Nat)

theorem Bytes.length_setU16 (v : UInt16) (h : off + 2 ≤ p.length) :
    (Bytes.setU16 p off v).length = p.length :=
  length_writeLE p off 2 v.toNat h

theorem Bytes.length_setU32 (v : UInt32) (h : off + 4 ≤ p.length) :
    (Bytes.setU32 p off v).length = p.length :=
  length_writeLE p off 4 v.toNat h

theorem Bytes.u16_setU16 (v : UInt16) (h : off ≤ p.length) :
    Bytes.u16 (Bytes.setU16 p off v) off = v := by
  rw [Bytes.u16, Bytes.setU16, readLE_writeLE_same p off 2 v.toNat h,
    Nat.mod_eq_of_lt (by exact v.toNat_lt), UInt16.ofNat_toNat]

theorem Bytes.u32_setU32 (v : UInt32) (h : off ≤ p.length) :
    Bytes.u32 (Bytes.setU32 p off v) off = v := by
  rw [Bytes.u32, Bytes.setU32, readLE_writeLE_same p off 4 v.toNat h,
    Nat.mod_eq_of_lt (by exact v.toNat_lt), UInt32.ofNat_toNat]

/-- Setting a field leaves the others as they were. -/
theorem Bytes.readLE_setU16 (v : UInt16) (off' w : Nat) (h : off + 2 ≤ p.length)
    (hd : off' + w ≤ off ∨ off + 2 ≤ off') :
    readLE (Bytes.setU16 p off v) off' w = readLE p off' w :=
  readLE_writeLE_disjoint p off 2 v.toNat off' w h hd

theorem Bytes.readLE_setU32 (v : UInt32) (off' w : Nat) (h : off + 4 ≤ p.length)
    (hd : off' + w ≤ off ∨ off + 4 ≤ off') :
    readLE (Bytes.setU32 p off v) off' w = readLE p off' w :=
  readLE_writeLE_disjoint p off 4 v.toNat off' w h hd

end Fields

/-- `update_checksum`: the checksum after the word `old` became `new`. -/
def updateChecksum (checksum old new : UInt16) : UInt16 :=
  let sum : UInt32 := (~~~checksum).toUInt32 + (~~~old).toUInt32 + new.toUInt32
  let sum : UInt32 := (sum &&& (0xffff : UInt32)) + (sum >>> 16)
  (~~~(sum + (sum >>> 16))).toUInt16

/-- `update_checksum_ip`: two words at once. -/
def updateChecksumIp (checksum : UInt16) (old new : UInt32) : UInt16 :=
  updateChecksum (updateChecksum checksum (old >>> 16).toUInt16 (new >>> 16).toUInt16)
    old.toUInt16 new.toUInt16

/-- `Ipv4Hdr::LEN`, the header without options. -/
def ipv4HdrLen : Nat := 20

/-- `size_of::<TcpHdr>()`. -/
def tcpHdrLen : Nat := 20

/-- `size_of::<UdpHdr>()`. -/
def udpHdrLen : Nat := 8

/-- `IpProto::Tcp`. -/
def ipProtoTcp : UInt8 := 6

/-- `IpProto::Udp`. -/
def ipProtoUdp : UInt8 := 17

end UniBPF
