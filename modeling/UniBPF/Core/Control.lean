import UniBPF.Core.Inst
import UniBPF.Lib.Heap

/-!
# The Control Protocol

Reconfiguration is triggered by a UDP datagram: `reconfigure` of the helper
tool builds the payload, `Control::push` takes it apart.

The decoder works on pointers into the packet, so a packet here knows its
address and the sums are 64-bit sums. Its checks compare such a sum with the
end of the packet. They are the only ones it makes: everything else is read
without asking whether it is there, and a read that leaves the packet has no
outcome (`none`).

The first check compares the length field of the UDP header as it stands in
memory. The field is in network byte order and the machine is little endian,
so `uhUlen` reads it the wrong way round, as the source does.

The packet is released before it is read; its bytes are taken to be as they
were.

## Main definitions

* `reconfigure`: The payload the helper tool sends.
* `UdpPacket`: A packet from its transport header to its end.
* `udpDatagram`: A well-formed UDP datagram around a payload.
* `clickString`: The `String` constructor of Click.
* `controlPush`: The parser of `Control::push`.
-/

namespace UniBPF

open LittleEndian

/-- `b"control"`. -/
def controlMagic : Bytes := [0x63, 0x6f, 0x6e, 0x74, 0x72, 0x6f, 0x6c]

/-- The payload `reconfigure` sends. -/
def reconfigure (newProgram signature : Bytes) : Bytes :=
  controlMagic ++ (toLE 8 1 ++ (toLE 8 newProgram.length ++ (newProgram ++
    (toLE 8 signature.length ++ signature))))

/-- A packet from its transport header to `end_data`. -/
structure UdpPacket where
  addr : Nat
  bytes : Bytes
  fits : addr + bytes.length < 2 ^ 64

/-- A 16-bit number in network byte order. -/
def toBE16 (n : Nat) : Bytes := [UInt8.ofNat (n / 256), UInt8.ofNat n]

/-- A UDP datagram: the header with its length field, the payload, and
    whatever pads the packet after it. -/
def udpDatagram (sport dport checksum : Nat) (payload padding : Bytes) : Bytes :=
  toBE16 sport ++ (toBE16 dport ++ (toBE16 (8 + payload.length) ++ (toBE16 checksum ++
    (payload ++ padding))))

/-- `p->udp_header()->uh_ulen`, with no `ntohs`. -/
def uhUlen (p : UdpPacket) : Nat :=
  readLE p.bytes 4 2

/-- `p->end_data()`. -/
def UdpPacket.endData (p : UdpPacket) : Nat :=
  p.addr + p.bytes.length

/-- The bytes from an address on, if the packet holds `n` of them there. -/
def UdpPacket.view (p : UdpPacket) (a : Nat) (n : Nat) : Option Bytes :=
  if p.addr ≤ a ∧ a + n ≤ p.endData then some ((p.bytes.drop (a - p.addr)).take n) else none

/-- `*(uint64_t *) a`. -/
def UdpPacket.read64 (p : UdpPacket) (a : Nat) : Option Nat :=
  (p.view a 8).map ofLE

/-- `String(const char *, int)`. A negative length asks for the bytes up to
    the first NUL. -/
def clickString (p : UdpPacket) (a : Nat) (len : Nat) : Option Bytes :=
  if len % 2 ^ 32 < 2 ^ 31 then p.view a (len % 2 ^ 32)
  else if p.addr ≤ a ∧ (p.bytes.drop (a - p.addr)).contains 0 then
    some ((p.bytes.drop (a - p.addr)).takeWhile (· != 0))
  else none

/-- The messages of a packet that is turned away. -/
inductive ControlError where
  | invalidLength
  | notMatchingPrefix
  | invalidProgramNameLen
  | invalidSignatureLen
deriving DecidableEq, Repr

/-- What a control packet asks for. -/
structure ControlFields where
  bpfelementId : Nat
  programName : Bytes
  signature : Bytes
deriving DecidableEq, Repr

/-- Sums of a pointer and offsets. -/
def ptrAdd (a n : Nat) : Nat := (a + n) % 2 ^ 64

/-- A length and the string it announces: the length check, the bytes and the
    address after them. -/
def controlString (p : UdpPacket) (a : Nat) (e : ControlError) :
    Option (Except ControlError (Bytes × Nat)) :=
  match p.read64 a with
  | none => none
  | some len =>
    if p.endData < ptrAdd (ptrAdd a 8) len then some (.error e)
    else
      match clickString p (ptrAdd a 8) len with
      | none => none
      | some s => some (.ok (s, ptrAdd (ptrAdd a 8) len))

/-- `Control::push`, up to the fields of the packet. -/
def controlPush (p : UdpPacket) : Option (Except ControlError ControlFields) :=
  let udpData := p.addr + 8
  if uhUlen p < 7 + 8 + 8 + 8 then some (.error .invalidLength)
  else
    match p.view udpData 7 with
    | none => none
    | some magic =>
      if magic ≠ controlMagic then some (.error .notMatchingPrefix)
      else
        match p.read64 (ptrAdd udpData 7) with
        | none => none
        | some id =>
          match controlString p (ptrAdd udpData 15) .invalidProgramNameLen with
          | none => none
          | some (.error e) => some (.error e)
          | some (.ok (programName, a)) =>
            match controlString p a .invalidSignatureLen with
            | none => none
            | some (.error e) => some (.error e)
            | some (.ok (signature, _)) => some (.ok ⟨id, programName, signature⟩)

end UniBPF
