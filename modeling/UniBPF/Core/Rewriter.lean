import UniBPF.Core.Packet

/-!
# Making Room in a Packet

`bpfrewriter.cc` and `ebpf/src/programs.rs`: the helper a rewriter program
calls to add bytes to the packet or take some away, at either end, and the
wrapper around it. The new length is worked out twice, by the host when it
changes the packet, and by the wrapper when it sets `data_end` again.

A packet is what the code that holds it sees: which packet object it is,
where the data starts and what the data is. `push` and `put` of Click add
space. They may have to move the packet, and a packet that is moved is
another object. Whether they do, where the data then is and what lies in the
new space is up to Click (`Room`). `pull` and `take` remove, and remove no
more than there is. Space beyond the address space is not to be had; the call
that asks for it has no outcome.

The program holds two pointers of 64 bits. Its arithmetic on them and on the
lengths wraps, and a 32-bit argument is extended by its sign.

## Main definitions

* `WritablePacket`, `Room`: A packet, and how space is found for it.
* `WritablePacket.push`, `WritablePacket.put`, `WritablePacket.pull`,
  `WritablePacket.take`: The operations of Click.
* `packetAddSpace`: The helper.
* `Rewriting`, `bpfPacketAddSpace`: The program beside the packet, and the
  wrapper.
* `stripEtherVlanHeader`: `strip-ether-vlan-header.rs`.

## Theorems

* `adjusted_cases`: The branches of either half of the helper.
-/

namespace UniBPF

/-- A packet as its holder sees it. Its data ends before the end of the
    address space. -/
structure WritablePacket where
  handle : Nat
  addr : Nat
  bytes : Bytes
  fits : addr + bytes.length < 2 ^ 64

/-- What Click finds when it looks for space: the address of the data in a new
    packet object, or none where the buffer has space left, and what lies in
    the new bytes. -/
structure Room where
  moved : Option Nat
  fill : Nat → UInt8

/-- The new bytes. -/
def Room.space (room : Room) (n : Nat) : Bytes :=
  (List.range n).map room.fill

/-- The packet with other data, if that lies in the address space. -/
def placed (handle addr : Nat) (bytes : Bytes) : Option WritablePacket :=
  if h : addr + bytes.length < 2 ^ 64 then some ⟨handle, addr, bytes, h⟩ else none

/-- `WritablePacket::push`: space before the data. -/
def WritablePacket.push (p : WritablePacket) (n : Nat) (room : Room) : Option WritablePacket :=
  match room.moved with
  | none => if n ≤ p.addr then placed p.handle (p.addr - n) (room.space n ++ p.bytes) else none
  | some addr => placed (p.handle + 1) addr (room.space n ++ p.bytes)

/-- `WritablePacket::put`: space after the data. -/
def WritablePacket.put (p : WritablePacket) (n : Nat) (room : Room) : Option WritablePacket :=
  match room.moved with
  | none => placed p.handle p.addr (p.bytes ++ room.space n)
  | some addr => placed (p.handle + 1) addr (p.bytes ++ room.space n)

/-- `Packet::pull`, which removes no more bytes than there are. -/
def WritablePacket.pull (p : WritablePacket) (n : Nat) : WritablePacket where
  handle := p.handle
  addr := p.addr + min n p.bytes.length
  bytes := p.bytes.drop n
  fits := by
    have hfits := p.fits
    rw [List.length_drop]
    omega

/-- `Packet::take`, which removes no more bytes than there are. -/
def WritablePacket.take (p : WritablePacket) (n : Nat) : WritablePacket where
  handle := p.handle
  addr := p.addr
  bytes := p.bytes.take (p.bytes.length - n)
  fits := by
    have hfits := p.fits
    rw [List.length_take]
    omega

/-- A call of the helper: its arguments, and what Click finds if it has to
    look for space. -/
structure SpaceCall where
  head : Int32
  tail : Int32
  headRoom : Room
  tailRoom : Room

/-- The first half of `bpf_packet_add_space`. The negated argument is passed
    on as an unsigned one. -/
def adjustHead (p : WritablePacket) (head : Int32) (room : Room) : Option WritablePacket :=
  if head ≠ 0 then
    if 0 < head then p.push head.toUInt32.toNat room else some (p.pull (-head).toUInt32.toNat)
  else some p

/-- The second half. -/
def adjustTail (p : WritablePacket) (tail : Int32) (room : Room) : Option WritablePacket :=
  if tail ≠ 0 then
    if 0 < tail then p.put tail.toUInt32.toNat room else some (p.take (-tail).toUInt32.toNat)
  else some p

/-- The branches of either half: nothing is asked for, or space is, or bytes
    are to go. -/
theorem adjusted_cases {α : Type*} (n : Int32) (grown : Option α) (cut same q : α)
    (h : (if n ≠ 0 then if 0 < n then grown else some cut else some same) = some q) :
    (n = 0 ∧ q = same) ∨ (0 < n ∧ grown = some q) ∨ (n < 0 ∧ q = cut) := by
  by_cases hzero : n = 0
  · rw [if_neg (fun hne => hne hzero)] at h
    exact Or.inl ⟨hzero, (Option.some.inj h).symm⟩
  rw [if_pos hzero] at h
  by_cases hpos : 0 < n
  · rw [if_pos hpos] at h
    exact Or.inr (Or.inl ⟨hpos, h⟩)
  · rw [if_neg hpos] at h
    have hneg : n < 0 := Int32.lt_of_le_of_ne (Int32.not_lt.mp hpos) hzero
    exact Or.inr (Or.inr ⟨hneg, (Option.some.inj h).symm⟩)

/-- `bpf_packet_add_space` of the host: the packet it leaves in
    `_current_packet`. -/
def packetAddSpace (p : WritablePacket) (c : SpaceCall) : Option WritablePacket :=
  (adjustHead p c.head c.headRoom).bind fun q => adjustTail q c.tail c.tailRoom

/-- The pointers of `struct BpfContext`. -/
structure DataRange where
  data : UInt64
  dataEnd : UInt64
deriving DecidableEq, Repr

/-- `get_ptr` for an object of `len` bytes: whether it answers. -/
def DataRange.getPtr (r : DataRange) (offset len : UInt64) : Bool :=
  decide (r.data + offset + len ≤ r.dataEnd)

/-- The program's copy of the context, and the packet the element holds. -/
structure Rewriting where
  ctx : DataRange
  packet : WritablePacket

/-- What `exec` hands to the program. -/
def startRewriting (p : WritablePacket) : Rewriting where
  ctx := ⟨UInt64.ofNat p.addr, UInt64.ofNat (p.addr + p.bytes.length)⟩
  packet := p

/-- `new_len` of the wrapper. -/
def newLen (r : DataRange) (c : SpaceCall) : UInt64 :=
  (r.dataEnd - r.data) + c.head.toInt64.toUInt64 + c.tail.toInt64.toUInt64

/-- `bpf_packet_add_space` of the program. -/
def bpfPacketAddSpace (s : Rewriting) (c : SpaceCall) : Option Rewriting :=
  (packetAddSpace s.packet c).map fun p =>
    ⟨⟨UInt64.ofNat p.addr, UInt64.ofNat p.addr + newLen s.ctx c⟩, p⟩

/-- `RewriterResult`. -/
inductive RewriterResult where
  | abort
  | success
deriving DecidableEq, Repr

/-- `strip-ether-vlan-header.rs`, `main` with `try_rewrite`. It only removes,
    so the room it would be given does not matter. -/
def stripEtherVlanHeader (p : WritablePacket) (room : Room) :
    Option (Rewriting × RewriterResult) :=
  let s := startRewriting p
  if s.ctx.getPtr 12 2 then
    let head : Int32 := if fromBe (Bytes.u16 p.bytes 12) = 0x8100 then -18 else -14
    (bpfPacketAddSpace s ⟨head, 0, room, room⟩).map fun s' => (s', .success)
  else some (s, .abort)

end UniBPF
