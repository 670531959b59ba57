import UniBPF.Core.Rewriter
import UniBPF.Lib.Steps

/-!
# The Program's View of a Packet That Changes

A rewriter program checks its accesses against two pointers of its own. When
it has the packet changed, the host changes the packet and the program works
out where the data now ends. The two agree as long as no call takes away more
than there is.

`pull` and `take` stop at the end of the packet and the arithmetic of the
wrapper does not. A call that removes more than the packet has at the front
leaves an empty packet behind, and `data_end` lies below `data` or, when the
call also adds bytes at the back, too close to it; a call that removes too
much at the back ends below `data` as well. Everything else is exact, for
every argument: a negated `INT32_MIN` is handed on as an unsigned number, so
it is the amount that was meant.

One half of the helper at a time, `adjustHead_cases` and `adjustTail_cases`
say what becomes of the bytes. All else is arithmetic: the length the host
arrives at (`length_packetAddSpace`) and the one the program does
(`dataEnd_eq_iff`).

## Main definitions

* `InStep`: The pointers of the program enclose the data of the packet.
* `KeepsBytes`: The bytes a call does not remove keep their values.
* `RemovesWithin`: A call removes no more than there is.

## Theorems

* `length_packetAddSpace`: The length after a call, as the host has it.
* `packetAddSpace_keepsBytes`: No call changes the bytes it leaves.
* `staysInStep_iff`: One call.
* `view_in_step_iff`: Every sequence of calls.
* `strip_in_step_iff`: When stripping the link layer header is safe.
-/

namespace UniBPF

/-- The pointers of the program enclose the data of the packet. -/
def InStep (s : Rewriting) : Prop :=
  s.ctx.data ≤ s.ctx.dataEnd ∧ s.ctx.data.toNat = s.packet.addr ∧
    s.ctx.dataEnd.toNat = s.packet.addr + s.packet.bytes.length

/-- The bytes a call does not remove are there afterwards, as far from the
    start of the data as the call has put them. -/
def KeepsBytes (old new : Bytes) (c : SpaceCall) : Prop :=
  ∀ i j : Nat, i < old.length → (j : Int) = i + c.head.toInt →
    (i : Int) < old.length + c.tail.toInt → new[j]? = old[i]?

/-- After the call, if it returns, the program and the packet are in step and
    the remaining bytes are as they were. -/
def StaysInStep (s : Rewriting) (c : SpaceCall) : Prop :=
  ∀ s', bpfPacketAddSpace s c = some s' →
    InStep s' ∧ KeepsBytes s.packet.bytes s'.packet.bytes c

/-- The front of a packet of `len` bytes is long enough for what the call
    removes there, and the whole of it for what the call removes in all. -/
def RemovesWithin (len : Nat) (c : SpaceCall) : Prop :=
  0 ≤ (len : Int) + c.head.toInt ∧ 0 ≤ (len : Int) + c.head.toInt + c.tail.toInt

section Arguments

theorem toNat_of_pos (x : Int32) (h : 0 < x) :
    (x.toUInt32.toNat : Int) = x.toInt ∧ 0 < x.toInt := by
  have hpos : 0 < x.toInt := by simpa using Int32.lt_iff_toInt_lt.mp h
  have hdef : x.toInt = (x.toUInt32.toNat : Int).bmod (2 ^ 32) :=
    BitVec.toInt_eq_toNat_bmod x.toBitVec
  have hlt := x.toUInt32.toNat_lt
  rw [Int.bmod_def] at hdef
  omega

/-- The amount to remove, `INT32_MIN` included. -/
theorem toNat_of_neg (x : Int32) (h : x < 0) :
    ((-x).toUInt32.toNat : Int) = -x.toInt ∧ x.toInt < 0 := by
  have hneg : x.toInt < 0 := by simpa using Int32.lt_iff_toInt_lt.mp h
  have hge := Int32.le_toInt x
  have hdef : (-x.toInt).bmod (2 ^ 32) = ((-x).toUInt32.toNat : Int).bmod (2 ^ 32) :=
    (Int32.toInt_neg x).symm.trans (BitVec.toInt_eq_toNat_bmod (-x).toBitVec)
  have hlt := (-x).toUInt32.toNat_lt
  -- Negating the least number gives it back, and as unsigned it is 2 ^ 31.
  rw [Int.bmod_def, Int.bmod_def] at hdef
  omega

theorem toNat_signExtend (x : Int32) :
    (x.toInt64.toUInt64.toNat : Int) = x.toInt % 2 ^ 64 := by
  have hdef : x.toInt64.toInt = (x.toInt64.toUInt64.toNat : Int).bmod (2 ^ 64) :=
    BitVec.toInt_eq_toNat_bmod x.toInt64.toBitVec
  have hlt := x.toInt64.toUInt64.toNat_lt
  rw [Int32.toInt_toInt64, Int.bmod_def] at hdef
  omega

end Arguments

section Host

variable (p q : WritablePacket)

theorem Room.length_space (room : Room) (n : Nat) : (room.space n).length = n := by
  rw [Room.space, List.length_map, List.length_range]

theorem placed_bytes (handle addr : Nat) (bytes : Bytes)
    (h : placed handle addr bytes = some q) : q.bytes = bytes := by
  rw [placed] at h
  split at h
  · rw [← Option.some.inj h]
  · exact absurd h (by simp only [reduceCtorEq, not_false_eq_true])

theorem push_bytes (n : Nat) (room : Room) (h : p.push n room = some q) :
    q.bytes = room.space n ++ p.bytes := by
  rw [WritablePacket.push] at h
  split at h
  · split at h
    · exact placed_bytes q _ _ _ h
    · exact absurd h (by simp only [reduceCtorEq, not_false_eq_true])
  · exact placed_bytes q _ _ _ h

theorem put_bytes (n : Nat) (room : Room) (h : p.put n room = some q) :
    q.bytes = p.bytes ++ room.space n := by
  rw [WritablePacket.put] at h
  split at h
  · exact placed_bytes q _ _ _ h
  · exact placed_bytes q _ _ _ h

theorem adjustHead_of_neg (head : Int32) (room : Room) (h : head < 0) :
    adjustHead p head room = some (p.pull (-head).toUInt32.toNat) := by
  have hzero : head ≠ 0 := Int32.ne_of_lt h
  have hpos : ¬ 0 < head := Int32.lt_asymm h
  rw [adjustHead, if_pos hzero, if_neg hpos]

/-- What becomes of the bytes in the first half of the helper. -/
theorem adjustHead_cases (head : Int32) (room : Room) (h : adjustHead p head room = some q) :
    (∃ new : Bytes, (new.length : Int) = head.toInt ∧ q.bytes = new ++ p.bytes) ∨
      ∃ n : Nat, (n : Int) = -head.toInt ∧ q.bytes = p.bytes.drop n := by
  rcases adjusted_cases head _ _ _ q h with ⟨hzero, hq⟩ | ⟨hpos, hq⟩ | ⟨hneg, hq⟩
  · refine Or.inl ⟨[], ?_, ?_⟩
    · rw [hzero]
      rfl
    · rw [hq, List.nil_append]
  · refine Or.inl ⟨room.space head.toUInt32.toNat, ?_, push_bytes p q _ room hq⟩
    rw [Room.length_space]
    exact (toNat_of_pos head hpos).1
  · exact Or.inr ⟨_, (toNat_of_neg head hneg).1, by rw [hq]; rfl⟩

/-- What becomes of the bytes in the second half. -/
theorem adjustTail_cases (tail : Int32) (room : Room) (h : adjustTail p tail room = some q) :
    (∃ new : Bytes, (new.length : Int) = tail.toInt ∧ q.bytes = p.bytes ++ new) ∨
      ∃ n : Nat, (n : Int) = -tail.toInt ∧ q.bytes = p.bytes.take (p.bytes.length - n) := by
  rcases adjusted_cases tail _ _ _ q h with ⟨hzero, hq⟩ | ⟨hpos, hq⟩ | ⟨hneg, hq⟩
  · refine Or.inl ⟨[], ?_, ?_⟩
    · rw [hzero]
      rfl
    · rw [hq, List.append_nil]
  · refine Or.inl ⟨room.space tail.toUInt32.toNat, ?_, put_bytes p q _ room hq⟩
    rw [Room.length_space]
    exact (toNat_of_pos tail hpos).1
  · exact Or.inr ⟨_, (toNat_of_neg tail hneg).1, by rw [hq]; rfl⟩

theorem length_adjustHead (head : Int32) (room : Room) (h : adjustHead p head room = some q) :
    (q.bytes.length : Int) = max 0 (p.bytes.length + head.toInt) := by
  rcases adjustHead_cases p q head room h with ⟨new, hnew, hq⟩ | ⟨n, hn, hq⟩
  · rw [hq, List.length_append]
    omega
  · rw [hq, List.length_drop]
    omega

theorem length_adjustTail (tail : Int32) (room : Room) (h : adjustTail p tail room = some q) :
    (q.bytes.length : Int) = max 0 (p.bytes.length + tail.toInt) := by
  rcases adjustTail_cases p q tail room h with ⟨new, hnew, hq⟩ | ⟨n, hn, hq⟩
  · rw [hq, List.length_append]
    omega
  · rw [hq, List.length_take]
    omega

theorem adjustHead_getElem (head : Int32) (room : Room) (h : adjustHead p head room = some q)
    (i j : Nat) (hij : (j : Int) = i + head.toInt) : q.bytes[j]? = p.bytes[i]? := by
  rcases adjustHead_cases p q head room h with ⟨new, hnew, hq⟩ | ⟨n, hn, hq⟩
  · rw [hq, List.getElem?_append_right (by omega), show j - new.length = i by omega]
  · rw [hq, List.getElem?_drop, show n + j = i by omega]

theorem adjustTail_getElem (tail : Int32) (room : Room) (h : adjustTail p tail room = some q)
    (j : Nat) (hlen : j < p.bytes.length) (hj : (j : Int) < p.bytes.length + tail.toInt) :
    q.bytes[j]? = p.bytes[j]? := by
  rcases adjustTail_cases p q tail room h with ⟨new, hnew, hq⟩ | ⟨n, hn, hq⟩
  · rw [hq, List.getElem?_append_left hlen]
  · rw [hq, List.getElem?_take_of_lt (by omega)]

variable (c : SpaceCall)

/-- The two halves of a call that returns. -/
theorem packetAddSpace_halves (h : packetAddSpace p c = some q) :
    ∃ mid, adjustHead p c.head c.headRoom = some mid ∧
      adjustTail mid c.tail c.tailRoom = some q := by
  rw [packetAddSpace] at h
  exact Option.bind_eq_some_iff.mp h

/-- The length after a call. Either end stops at nothing. -/
theorem length_packetAddSpace (h : packetAddSpace p c = some q) :
    (q.bytes.length : Int) =
      max 0 (max 0 (p.bytes.length + c.head.toInt) + c.tail.toInt) := by
  rcases packetAddSpace_halves p q c h with ⟨mid, hhead, htail⟩
  rw [length_adjustTail mid q c.tail c.tailRoom htail,
    length_adjustHead p mid c.head c.headRoom hhead]

theorem packetAddSpace_keepsBytes (h : packetAddSpace p c = some q) :
    KeepsBytes p.bytes q.bytes c := by
  rcases packetAddSpace_halves p q c h with ⟨mid, hhead, htail⟩
  intro i j hi hij hkept
  -- The byte is moved by the first half and stays in place in the second.
  have hmid := length_adjustHead p mid c.head c.headRoom hhead
  rw [adjustTail_getElem mid q c.tail c.tailRoom htail j (by omega) (by omega),
    adjustHead_getElem p mid c.head c.headRoom hhead i j hij]

end Host

section Program

variable (s : Rewriting) (c : SpaceCall)

theorem toNat_ofNat_addr (p : WritablePacket) : (UInt64.ofNat p.addr).toNat = p.addr := by
  have hfits := p.fits
  exact UInt64.toNat_ofNat_of_lt' (show p.addr < 2 ^ 64 by omega)

theorem startRewriting_inStep (p : WritablePacket) : InStep (startRewriting p) := by
  have hfits := p.fits
  have hdata := toNat_ofNat_addr p
  have hend : (UInt64.ofNat (p.addr + p.bytes.length)).toNat = p.addr + p.bytes.length :=
    UInt64.toNat_ofNat_of_lt' hfits
  refine ⟨?_, hdata, hend⟩
  rw [UInt64.le_iff_toNat_le]
  show (UInt64.ofNat p.addr).toNat ≤ (UInt64.ofNat (p.addr + p.bytes.length)).toNat
  omega

/-- The length the wrapper works out, up to wrapping around. -/
theorem toNat_newLen (h : InStep s) :
    ((newLen s.ctx c).toNat : Int) =
      (s.packet.bytes.length + c.head.toInt + c.tail.toInt) % 2 ^ 64 := by
  rcases h with ⟨hle, hdata, hend⟩
  have hold : (s.ctx.dataEnd - s.ctx.data).toNat = s.packet.bytes.length := by
    rw [UInt64.toNat_sub_of_le _ _ hle, hdata, hend]
    omega
  -- The extended arguments are the signed ones up to a multiple of 2 ^ 64.
  have hhead := toNat_signExtend c.head
  have htail := toNat_signExtend c.tail
  rw [newLen, UInt64.toNat_add, UInt64.toNat_add, hold]
  omega

/-- The end the wrapper sets is the end of the packet exactly when neither end
    was asked for more than there is. -/
theorem dataEnd_eq_iff (h : InStep s) (q : WritablePacket)
    (hq : packetAddSpace s.packet c = some q) :
    (UInt64.ofNat q.addr + newLen s.ctx c).toNat = q.addr + q.bytes.length ↔
      RemovesWithin s.packet.bytes.length c := by
  have hnew := toNat_newLen s c h
  have hlen := length_packetAddSpace s.packet q c hq
  have hfits := q.fits
  have hold := s.packet.fits
  -- The arguments are small against the address space, so two lengths that
  -- differ do not meet again by wrapping around.
  have hhead := Int32.toInt_lt c.head
  have hhead' := Int32.le_toInt c.head
  have htail := Int32.toInt_lt c.tail
  have htail' := Int32.le_toInt c.tail
  rw [UInt64.toNat_add, toNat_ofNat_addr q, RemovesWithin]
  omega

/-- A call that returns leaves the program in step exactly when it removed no
    more than there was. -/
theorem inStep_after_iff (h : InStep s) (s' : Rewriting) (hs' : bpfPacketAddSpace s c = some s') :
    InStep s' ↔ RemovesWithin s.packet.bytes.length c := by
  rw [bpfPacketAddSpace] at hs'
  rcases Option.map_eq_some_iff.mp hs' with ⟨q, hq, hctx⟩
  have hiff := dataEnd_eq_iff s c h q hq
  have haddr := toNat_ofNat_addr q
  rw [← hctx]
  constructor
  · intro hin
    exact hiff.mp hin.2.2
  · intro hwithin
    have hend := hiff.mpr hwithin
    refine ⟨?_, haddr, hend⟩
    rw [UInt64.le_iff_toNat_le]
    show (UInt64.ofNat q.addr).toNat ≤ (UInt64.ofNat q.addr + newLen s.ctx c).toNat
    omega

theorem bpfPacketAddSpace_keepsBytes (s' : Rewriting) (hs' : bpfPacketAddSpace s c = some s') :
    KeepsBytes s.packet.bytes s'.packet.bytes c := by
  rw [bpfPacketAddSpace] at hs'
  rcases Option.map_eq_some_iff.mp hs' with ⟨q, hq, hctx⟩
  rw [← hctx]
  exact packetAddSpace_keepsBytes s.packet q c hq

/-- One call keeps the program in step exactly when it does not return or
    removes no more than there is. -/
theorem staysInStep_iff (h : InStep s) :
    StaysInStep s c ↔
      ((bpfPacketAddSpace s c).isSome → RemovesWithin s.packet.bytes.length c) := by
  constructor
  · intro hstays hsome
    rcases Option.isSome_iff_exists.mp hsome with ⟨s', hs'⟩
    exact (inStep_after_iff s c h s' hs').mp (hstays s' hs').1
  · intro hwithin s' hs'
    have hsome : (bpfPacketAddSpace s c).isSome := by rw [hs']; rfl
    exact ⟨(inStep_after_iff s c h s' hs').mpr (hwithin hsome),
      bpfPacketAddSpace_keepsBytes s c s' hs'⟩

/-- For every packet and every sequence of calls with any arguments: after
    each call that returns the pointers of the program enclose the data of the
    packet and the bytes that were not removed are as they were, if and only
    if each of these calls removes no more than the packet has when it is
    made. -/
theorem view_in_step_iff (p : WritablePacket) (cs : List SpaceCall) :
    Steps.Along bpfPacketAddSpace StaysInStep (startRewriting p) cs ↔
      Steps.Along bpfPacketAddSpace (fun s c =>
        (bpfPacketAddSpace s c).isSome → RemovesWithin s.packet.bytes.length c)
        (startRewriting p) cs :=
  Steps.along_iff bpfPacketAddSpace StaysInStep _ InStep staysInStep_iff
    (fun _ _ s' _ hstays hs' => (hstays s' hs').1) cs (startRewriting p) (startRewriting_inStep p)

end Program

section Strip

/-- The frame with 802.1Q tag that is as long as the program checks and no
    longer. -/
def shortTaggedFrame : WritablePacket where
  handle := 0
  addr := 4096
  bytes := [0, 0, 0, 0, 0, 0, 0, 0, 0, 0, 0, 0, 0x81, 0]
  fits := by decide

/-- A buffer with space left, and zeros there. -/
def zeroRoom : Room := ⟨none, fun _ => 0⟩

/-- The program that strips the link layer header asks for eighteen bytes of a
    frame of fourteen. The host removes the fourteen and `data_end` is set
    four bytes below `data`. -/
theorem view_out_of_step :
    (stripEtherVlanHeader shortTaggedFrame zeroRoom).map (fun out => (out.1.ctx, out.2)) =
        some (⟨4110, 4106⟩, .success) ∧
      ¬ Steps.Along bpfPacketAddSpace StaysInStep (startRewriting shortTaggedFrame)
        [⟨-18, 0, zeroRoom, zeroRoom⟩] := by
  refine ⟨rfl, ?_⟩
  rintro ⟨hstays, -⟩
  have hle := (hstays _ rfl).1.1
  exact absurd hle (by decide)

theorem getPtr_start (p : WritablePacket) (offset len : UInt64)
    (h : p.addr + offset.toNat + len.toNat < 2 ^ 64) :
    (startRewriting p).ctx.getPtr offset len =
      decide (offset.toNat + len.toNat ≤ p.bytes.length) := by
  rcases startRewriting_inStep p with ⟨-, hdata, hend⟩
  have hsum : ((startRewriting p).ctx.data + offset + len).toNat =
      p.addr + offset.toNat + len.toNat := by
    rw [UInt64.toNat_add, UInt64.toNat_add, hdata]
    show ((p.addr + offset.toNat) % 2 ^ 64 + len.toNat) % 2 ^ 64 = _
    omega
  rw [DataRange.getPtr, decide_eq_decide, UInt64.le_iff_toNat_le, hsum, hend]
  show p.addr + _ + _ ≤ p.addr + p.bytes.length ↔ _
  omega

/-- Removing bytes at the front always returns, so only the amount matters. -/
theorem removeFront_in_step_iff (p : WritablePacket) (head : Int32) (room : Room)
    (hneg : head < 0) :
    ∃ s, bpfPacketAddSpace (startRewriting p) ⟨head, 0, room, room⟩ = some s ∧
      (InStep s ↔ 0 ≤ (p.bytes.length : Int) + head.toInt) := by
  have hhost : packetAddSpace p ⟨head, 0, room, room⟩ =
      some (p.pull (-head).toUInt32.toNat) := by
    rw [packetAddSpace, adjustHead_of_neg p head room hneg]
    rfl
  have hsome : (bpfPacketAddSpace (startRewriting p) ⟨head, 0, room, room⟩).isSome := by
    rw [bpfPacketAddSpace, Option.isSome_map]
    exact Option.isSome_iff_exists.mpr ⟨_, hhost⟩
  rcases Option.isSome_iff_exists.mp hsome with ⟨s, hs⟩
  refine ⟨s, hs, ?_⟩
  rw [inStep_after_iff (startRewriting p) _ (startRewriting_inStep p) s hs, RemovesWithin]
  show 0 ≤ (p.bytes.length : Int) + head.toInt ∧
    0 ≤ (p.bytes.length : Int) + head.toInt + 0 ↔ _
  omega

/-- Stripping the link layer header returns for every packet, and leaves the
    program in step unless the frame has the tag and ends within it. -/
theorem strip_in_step_iff (p : WritablePacket) (room : Room) (haddr : p.addr + 14 < 2 ^ 64) :
    ∃ s result, stripEtherVlanHeader p room = some (s, result) ∧
      (InStep s ↔ p.bytes.length < 14 ∨ 18 ≤ p.bytes.length ∨
        fromBe (Bytes.u16 p.bytes 12) ≠ 0x8100) := by
  have hcheck : (startRewriting p).ctx.getPtr 12 2 = decide (14 ≤ p.bytes.length) :=
    getPtr_start p 12 2 haddr
  by_cases hlen : 14 ≤ p.bytes.length
  · rw [stripEtherVlanHeader, hcheck, decide_eq_true hlen, if_pos rfl]
    by_cases htag : fromBe (Bytes.u16 p.bytes 12) = 0x8100
    · rcases removeFront_in_step_iff p (-18) room (by decide) with ⟨s, hs, hiff⟩
      refine ⟨s, .success, ?_, ?_⟩
      · simp only [htag, if_pos, hs, Option.map_some]
      · have hneeds : InStep s ↔ 0 ≤ (p.bytes.length : Int) + -18 := hiff
        rw [hneeds]
        constructor
        · intro henough
          exact Or.inr (Or.inl (by omega))
        · rintro (hshort | henough | hplain)
          · omega
          · omega
          · exact absurd htag hplain
    · rcases removeFront_in_step_iff p (-14) room (by decide) with ⟨s, hs, hiff⟩
      refine ⟨s, .success, ?_, ?_⟩
      · simp only [htag, if_false, hs, Option.map_some]
      · have hneeds : InStep s ↔ 0 ≤ (p.bytes.length : Int) + -14 := hiff
        rw [hneeds]
        exact ⟨fun _ => Or.inr (Or.inr htag), fun _ => by omega⟩
  · refine ⟨startRewriting p, .abort, ?_, ?_⟩
    · rw [stripEtherVlanHeader, hcheck, decide_eq_false hlen]
      rfl
    · exact ⟨fun _ => Or.inl (by omega), fun _ => startRewriting_inStep p⟩

end Strip

end UniBPF
