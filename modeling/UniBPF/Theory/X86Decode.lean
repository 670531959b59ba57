import Mathlib.Tactic.IntervalCases
import UniBPF.Core.JitX86

/-!
# What the Emitted Bytes Mean

The emitters of `Core.JitX86` write bytes and the processor reads
instructions. This module has the pieces both are made of, prefix, operand
byte and signed field, and shows that what an emitter writes is read back as
the instruction it is named after, whatever comes next in memory.

The pieces go together in the one way the emitters put them together, so the
lemmas about them are about `basicRex` in front of an opcode, about the
operand byte of two registers, and about the operand bytes of a register and
a place in memory. The last one has a condition. A base register whose number
ends in four is not read as the base at all, the byte after it is taken for
the scale, index and base, and `takeModRM_sib` is what becomes of it.

## Main definitions

* `basicRex`, `modrmByte`, `dispBytes`: What `emitBasicRex`, `emitModrm` and
  `emitModrmAndDisplacement` write.
* `wrap32`: A number as a field of four bytes has it.

## Theorems

* `decode_basic`: Decoding past the prefix.
* `takeModRM_reg`, `takeModRM_mem`: The operand bytes read back.
* `takeModRM_sib`: A base register whose number ends in four.
* `takeImm_toLE`: A signed field read back.
-/

namespace UniBPF

open LittleEndian

namespace X86

/-- What `emitRex` writes. -/
def rexByte (w r x b : Bool) : UInt8 :=
  UInt8.ofNat (0x40 ||| w.toNat <<< 3 ||| r.toNat <<< 2 ||| x.toNat <<< 1 ||| b.toNat)

/-- What `emitBasicRex` writes. -/
def basicRex (w : Bool) (src dst : Reg) : Bytes :=
  if w || highReg src || highReg dst then [rexByte w (highReg src) false (highReg dst)] else []

/-- What `emitModrm` writes. -/
def modrmByte (mode : Nat) (r m : Reg) : UInt8 :=
  UInt8.ofNat (mode ||| (r.val % 8) <<< 3 ||| m.val % 8)

/-- What `emitModrmAndDisplacement` writes. -/
def dispBytes (r m : Reg) (d : Int) : Bytes :=
  if d = 0 ∧ m.val % 8 ≠ 5 then [modrmByte 0x00 r m]
  else if -128 ≤ d ∧ d ≤ 127 then modrmByte 0x40 r m :: toLE 1 (u32 d)
  else modrmByte 0x80 r m :: toLE 4 (u32 d)

/-- A number as a signed field of four bytes has it. -/
def wrap32 (x : Int) : Int := toSigned 32 (u32 x)

theorem wrap32_eq (x : Int) (h : -2 ^ 31 ≤ x ∧ x < 2 ^ 31) : wrap32 x = x := by
  rw [wrap32, toSigned, u32]
  split
  all_goals omega

/-! ## Signed fields -/

theorem takeImm_toLE (w n : Nat) (bs : Bytes) :
    takeImm w (toLE w n ++ bs) = some (toSigned (8 * w) (n % 256 ^ w), bs) := by
  have hlen : w ≤ (toLE w n ++ bs).length := by
    rw [List.length_append, length_toLE]
    omega
  rw [takeImm, if_pos hlen, List.take_left' (length_toLE w n), List.drop_left' (length_toLE w n),
    ofLE_toLE]

theorem u32_lt (x : Int) : u32 x < 2 ^ 32 := by
  rw [u32]
  omega

theorem takeImm_four (x : Int) (bs : Bytes) :
    takeImm 4 (toLE 4 (u32 x) ++ bs) = some (wrap32 x, bs) := by
  have hx := u32_lt x
  rw [takeImm_toLE, wrap32, Nat.mod_eq_of_lt (by norm_num at hx ⊢; exact hx)]

theorem takeImm_one (x : Int) (bs : Bytes) (h : -128 ≤ x ∧ x ≤ 127) :
    takeImm 1 (toLE 1 (u32 x) ++ bs) = some (x, bs) := by
  have hx : toSigned (8 * 1) (u32 x % 256 ^ 1) = x := by
    rw [u32, toSigned]
    split
    all_goals omega
  rw [takeImm_toLE, hx]

/-- A field of any content, as the tables of the second pass leave it. -/
theorem takeImm_append (content rest : Bytes) :
    takeImm content.length (content ++ rest) =
      some (toSigned (8 * content.length) (ofLE content), rest) := by
  rw [takeImm, if_pos (by rw [List.length_append]; omega), List.take_left, List.drop_left]

/-! ## Prefixes -/

theorem takeRex_rexByte (w r x b : Bool) (bs : Bytes) :
    takeRex (rexByte w r x b :: bs) = (some ⟨w, r, x, b⟩, bs) := by
  cases w
  all_goals cases r
  all_goals cases x
  all_goals cases b
  all_goals rfl

theorem takeRex_opcode (op : UInt8) (bs : Bytes) (h : op.toNat / 16 ≠ 4) :
    takeRex (op :: bs) = (none, op :: bs) := by
  simp only [takeRex, rexOf, h, if_false]

/-- A byte that stands for itself at the head of an instruction. -/
def isOpcode (op : UInt8) : Prop := op.toNat / 16 ≠ 4 ∧ op ≠ 0x66 ∧ op ≠ 0xf3

instance (op : UInt8) : Decidable (isOpcode op) := by
  unfold isOpcode
  infer_instance

theorem decode_head (b op : UInt8) (bs bs' : Bytes) (rex : Option Rex) (h66 : b ≠ 0x66)
    (hf3 : b ≠ 0xf3) (hrex : takeRex (b :: bs) = (rex, op :: bs')) :
    decode (b :: bs) = decodeOp rex op.toNat bs' := by
  rw [decode, hrex]
  · exact fun _ h => h66 (List.cons.inj h).1
  · exact fun _ h => hf3 (List.cons.inj h).1

theorem rexByte_ne (w r x b : Bool) :
    rexByte w r x b ≠ 0x66 ∧ rexByte w r x b ≠ 0xf3 := by
  cases w
  all_goals cases r
  all_goals cases x
  all_goals cases b
  all_goals decide

theorem decode_rex (w r x b : Bool) (op : UInt8) (bs : Bytes) :
    decode (rexByte w r x b :: op :: bs) = decodeOp (some ⟨w, r, x, b⟩) op.toNat bs := by
  exact decode_head _ _ _ _ _ (rexByte_ne w r x b).1 (rexByte_ne w r x b).2
    (takeRex_rexByte w r x b (op :: bs))

theorem decode_opcode (op : UInt8) (bs : Bytes) (h : isOpcode op) :
    decode (op :: bs) = decodeOp none op.toNat bs := by
  exact decode_head _ _ _ _ _ h.2.1 h.2.2 (takeRex_opcode op bs h.1)

/-- The bits a prefix for two registers has. -/
def basicBits (w : Bool) (src dst : Reg) : Rex := ⟨w, highReg src, false, highReg dst⟩

/-- Decoding past the prefix. Without one the bits are all clear, which is
    what they would have been. -/
theorem decode_basic (w : Bool) (src dst : Reg) (op : UInt8) (bs : Bytes) (h : isOpcode op) :
    ∃ rex : Option Rex, rex.getD .zero = basicBits w src dst ∧
      decode (basicRex w src dst ++ op :: bs) = decodeOp rex op.toNat bs := by
  by_cases hrex : (w || highReg src || highReg dst) = true
  · refine ⟨some (basicBits w src dst), rfl, ?_⟩
    rw [basicRex, if_pos hrex]
    exact decode_rex w (highReg src) false (highReg dst) op bs
  · refine ⟨none, ?_, ?_⟩
    · simp only [Bool.or_eq_true, not_or, Bool.not_eq_true] at hrex
      rw [basicBits, hrex.1.1, hrex.1.2, hrex.2]
      rfl
    · rw [basicRex, if_neg hrex]
      exact decode_opcode op bs h

/-- Decoding past the 16-bit prefix. -/
theorem decode_basic16 (src dst : Reg) (op : UInt8) (bs : Bytes) (h : op.toNat / 16 ≠ 4) :
    decode (0x66 :: (basicRex false src dst ++ op :: bs)) =
      decodeOp16 (basicBits false src dst) op.toNat bs := by
  by_cases hrex : (false || highReg src || highReg dst) = true
  · rw [basicRex, if_pos hrex]
    simp only [decode, List.cons_append, List.nil_append, takeRex_rexByte, Option.getD_some,
      basicBits]
  · rw [basicRex, if_neg hrex]
    simp only [Bool.false_or, Bool.or_eq_true, not_or, Bool.not_eq_true] at hrex
    simp only [decode, List.nil_append, takeRex_opcode op bs h, Option.getD_none, basicBits,
      hrex.1, hrex.2, Rex.zero]

/-! ## Operand bytes -/

theorem extend_high (r : Reg) (n : Nat) (h : n % 8 = r.val % 8) : extend (highReg r) n = r := by
  have hr := r.isLt
  apply Fin.ext
  simp only [extend, highReg, Fin.val_ofNat, h]
  by_cases hhigh : 8 ≤ r.val
  · simp only [hhigh, decide_true, if_true]
    omega
  · simp only [hhigh, decide_false, Bool.false_eq_true, if_false]
    omega

/-- The three fields of an operand byte. -/
theorem modrmByte_fields : ∀ (r m : Reg),
    ((modrmByte 0xc0 r m).toNat / 64 = 3 ∧ (modrmByte 0xc0 r m).toNat / 8 % 8 = r.val % 8 ∧
      (modrmByte 0xc0 r m).toNat % 8 = m.val % 8) ∧
    ((modrmByte 0x00 r m).toNat / 64 = 0 ∧ (modrmByte 0x00 r m).toNat / 8 % 8 = r.val % 8 ∧
      (modrmByte 0x00 r m).toNat % 8 = m.val % 8) ∧
    ((modrmByte 0x40 r m).toNat / 64 = 1 ∧ (modrmByte 0x40 r m).toNat / 8 % 8 = r.val % 8 ∧
      (modrmByte 0x40 r m).toNat % 8 = m.val % 8) ∧
    ((modrmByte 0x80 r m).toNat / 64 = 2 ∧ (modrmByte 0x80 r m).toNat / 8 % 8 = r.val % 8 ∧
      (modrmByte 0x80 r m).toNat % 8 = m.val % 8) := by
  decide +kernel

theorem takeModRM_reg (w : Bool) (src dst : Reg) (bs : Bytes) :
    takeModRM (basicBits w src dst) (modrmByte 0xc0 src dst :: bs) =
      some (src, .reg dst, bs) := by
  rcases (modrmByte_fields src dst).1 with ⟨hmode, hreg, hlow⟩
  have hdst : extend (highReg dst) ((modrmByte 0xc0 src dst).toNat % 8) = dst :=
    extend_high dst _ (by rw [Nat.mod_mod, hlow])
  simp only [takeModRM, hmode, if_true, basicBits, extend_high src _ hreg, hdst]

/-- The displacement in the form the mode asks for. -/
theorem takeModRM_base (w : Bool) (src dst : Reg) (mode : Nat) (byte : UInt8) (d : Int)
    (bs rest : Bytes) (hmode : byte.toNat / 64 = mode) (hreg : byte.toNat / 8 % 8 = src.val % 8)
    (hlow : byte.toNat % 8 = dst.val % 8) (h3 : mode ≠ 3) (h4 : dst.val % 8 ≠ 4)
    (h5 : ¬ (mode = 0 ∧ dst.val % 8 = 5)) (hdisp : takeDisp mode bs = some (d, rest)) :
    takeModRM (basicBits w src dst) (byte :: bs) =
      some (src, .mem ⟨.reg dst, none, d⟩, rest) := by
  have hdst : extend (highReg dst) (dst.val % 8) = dst := extend_high dst _ (Nat.mod_mod _ _)
  simp only [takeModRM, hmode, hlow, h3, h4, h5, if_false, hdisp, Option.map_some, basicBits,
    extend_high src _ hreg, hdst]

/-- A register and a place in memory, read back. -/
theorem takeModRM_mem (w : Bool) (src dst : Reg) (d : Int) (bs : Bytes) (h4 : dst.val % 8 ≠ 4) :
    takeModRM (basicBits w src dst) (dispBytes src dst d ++ bs) =
      some (src, .mem ⟨.reg dst, none, wrap32 d⟩, bs) := by
  rcases modrmByte_fields src dst with ⟨-, ⟨m0, r0, l0⟩, ⟨m1, r1, l1⟩, ⟨m2, r2, l2⟩⟩
  rw [dispBytes]
  split
  next hzero =>
    rw [hzero.1, wrap32_eq 0 (by omega)]
    exact takeModRM_base w src dst 0 _ 0 bs bs m0 r0 l0 (by omega) h4
      (fun h => hzero.2 h.2) rfl
  next =>
    split
    next hshort =>
      rw [wrap32_eq d (by omega)]
      exact takeModRM_base w src dst 1 _ d _ bs m1 r1 l1 (by omega) h4 (by omega)
        (takeImm_one d bs hshort)
    next =>
      exact takeModRM_base w src dst 2 _ (wrap32 d) _ bs m2 r2 l2 (by omega) h4 (by omega)
        (takeImm_four d bs)

/-- A base register whose number ends in four is never read as one: what
    comes out of the operand bytes has been read from the byte after them
    too. -/
theorem takeModRM_sib (w : Bool) (src dst : Reg) (mode : Nat) (byte : UInt8) (bs : Bytes)
    (hmode : byte.toNat / 64 = mode) (hreg : byte.toNat / 8 % 8 = src.val % 8)
    (hlow : byte.toNat % 8 = dst.val % 8) (h3 : mode ≠ 3) (h4 : dst.val % 8 = 4) :
    takeModRM (basicBits w src dst) (byte :: bs) =
      (takeSib (basicBits w src dst) mode bs).map fun p => (src, .mem p.1, p.2) := by
  simp only [takeModRM, hmode, hlow, h3, h4, if_false, if_true]
  simp only [basicBits, extend_high src _ hreg]

end X86

end UniBPF
