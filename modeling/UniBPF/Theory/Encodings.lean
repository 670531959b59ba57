import UniBPF.Theory.X86Decode

/-!
# Encoded Instructions

An instruction together with the bytes it is written as. `Encoded` carries
the proof that the bytes are read back as the instruction, so a listing of
encoded instructions is a listing of what the processor will see, and nothing
about bytes has to be said again by those who use it.

An instruction may end in a field that is filled in later, so what it is
depends on what the field will hold. For the others the field is empty and
the dependence is not there.

There is one value for each emitter, under the name of the instruction.

## Main definitions

* `Table`, `Target`, `CodePiece`: The tables of `struct jit_state`, and what
  their entries refer to.
* `signedField`: The number in a field.
* `Encoded`: An instruction with its bytes, and with a field of the right
  size.
* `Encoded.plain`, `Encoded.rel`: Instructions without a field and with one.
-/

namespace UniBPF

open LittleEndian Relocations

namespace X86

/-- The tables of `struct jit_state`. -/
inductive Table where
  | jumps | localCalls | loads | leas
deriving DecidableEq, Repr

/-- What an entry of a table refers to. -/
structure Target where
  pc : Nat
  offset : Nat
  near : Bool
deriving DecidableEq, Repr

abbrev CodePiece := Piece Table Target

/-- The number in a field. -/
def signedField (content : Bytes) : Int := toSigned (8 * content.length) (ofLE content)

/-- The size of a field. Only jumps come in two sizes. -/
def fieldWidth : Table → Target → Nat
  | .jumps, target => if target.near then 1 else 4
  | _, _ => 4

/-- An instruction and its bytes. -/
structure Encoded where
  piece : CodePiece
  /-- The instruction, given what its field holds. -/
  instr : Int → Instr
  sized : ∀ field, piece.field = some field →
    piece.content.length = fieldWidth field.table field.target
  short : piece.bytes.length ≤ maxInstr
  decodes : ∀ content rest, content.length = piece.content.length →
    decode (piece.head ++ (content ++ rest)) = some (instr (signedField content), rest)

theorem decodes_plain (bytes : Bytes) (i : Instr)
    (h : ∀ rest, decode (bytes ++ rest) = some (i, rest)) (content rest : Bytes)
    (hlen : content.length = ([] : Bytes).length) :
    decode (bytes ++ (content ++ rest)) = some (i, rest) := by
  rw [List.eq_nil_of_length_eq_zero hlen, List.nil_append]
  exact h rest

theorem short_plain (bytes : Bytes) (h : bytes.length ≤ maxInstr) :
    (⟨bytes, none, []⟩ : CodePiece).bytes.length ≤ maxInstr := by
  rw [Piece.bytes, List.append_nil]
  exact h

/-- An instruction without a field. -/
def Encoded.plain (bytes : Bytes) (i : Instr)
    (h : ∀ rest, decode (bytes ++ rest) = some (i, rest)) (hshort : bytes.length ≤ maxInstr) :
    Encoded where
  piece := ⟨bytes, none, []⟩
  instr := fun _ => i
  sized := fun _ h => absurd h (Option.some_ne_none _).symm
  short := short_plain bytes hshort
  decodes := decodes_plain bytes i h

theorem decodes_rel (head : Bytes) (w : Nat) (mk : Int → Instr)
    (h : ∀ bs v rest, takeImm w bs = some (v, rest) → decode (head ++ bs) = some (mk v, rest))
    (content rest : Bytes) (hlen : content.length = (toLE w 0).length) :
    decode (head ++ (content ++ rest)) = some (mk (signedField content), rest) := by
  rw [length_toLE] at hlen
  exact h _ _ _ (hlen ▸ takeImm_append content rest)

theorem sized_rel (table : Table) (target : Target) (field : Field Table Target)
    (h : some (⟨table, target⟩ : Field Table Target) = some field) :
    (toLE (fieldWidth table target) 0).length = fieldWidth field.table field.target := by
  rw [length_toLE, ← Option.some.inj h]

theorem fieldWidth_le (table : Table) (target : Target) : fieldWidth table target ≤ 4 := by
  cases table with
  | jumps =>
      rw [fieldWidth]
      split
      all_goals omega
  | _ => exact le_refl 4

theorem short_rel (head : Bytes) (table : Table) (target : Target) (h : head.length ≤ 11) :
    (⟨head, some ⟨table, target⟩, toLE (fieldWidth table target) 0⟩ : CodePiece).bytes.length ≤
      maxInstr := by
  have hwidth := fieldWidth_le table target
  rw [Piece.bytes, List.length_append, length_toLE, maxInstr]
  exact Nat.add_le_add h hwidth

/-- An instruction that ends in a field, which holds zeros at first. -/
def Encoded.rel (head : Bytes) (table : Table) (target : Target) (mk : Int → Instr)
    (h : ∀ bs v rest, takeImm (fieldWidth table target) bs = some (v, rest) →
      decode (head ++ bs) = some (mk v, rest)) (hshort : head.length ≤ 11) : Encoded where
  piece := ⟨head, some ⟨table, target⟩, toLE (fieldWidth table target) 0⟩
  instr := mk
  sized := sized_rel table target
  short := short_rel head table target hshort
  decodes := decodes_rel head (fieldWidth table target) mk h

theorem length_basicRex (w : Bool) (src dst : Reg) : (basicRex w src dst).length ≤ 1 := by
  rw [basicRex]
  split
  · exact le_refl 1
  · exact Nat.zero_le 1

theorem length_dispBytes (r m : Reg) (d : Int) : (dispBytes r m d).length ≤ 5 := by
  rw [dispBytes]
  split
  · exact Nat.le_of_ble_eq_true rfl
  · split
    · rw [List.length_cons, length_toLE]
      omega
    · rw [List.length_cons, length_toLE]

/-! ## Registers on the stack -/

theorem pushByte_facts : ∀ r : Reg, isOpcode (UInt8.ofNat (0x50 ||| r.val % 8)) ∧
    (UInt8.ofNat (0x50 ||| r.val % 8)).toNat / 8 = 10 ∧
    (UInt8.ofNat (0x50 ||| r.val % 8)).toNat % 8 = r.val % 8 := by
  decide +kernel

theorem popByte_facts : ∀ r : Reg, isOpcode (UInt8.ofNat (0x58 ||| r.val % 8)) ∧
    (UInt8.ofNat (0x58 ||| r.val % 8)).toNat / 8 = 11 ∧
    (UInt8.ofNat (0x58 ||| r.val % 8)).toNat % 8 = r.val % 8 := by
  decide +kernel

def pushBytes (r : Reg) : Bytes := basicRex false 0 r ++ [UInt8.ofNat (0x50 ||| r.val % 8)]

def popBytes (r : Reg) : Bytes := basicRex false 0 r ++ [UInt8.ofNat (0x58 ||| r.val % 8)]

theorem decodeOp_push (rex : Option Rex) (op : Nat) (bs : Bytes) (h : op / 8 = 10) :
    decodeOp rex op bs = some (.op (.push (extend (rex.getD .zero).b op)), bs) := by
  simp only [decodeOp, h, if_true]

theorem decodeOp_pop (rex : Option Rex) (op : Nat) (bs : Bytes) (h : op / 8 = 11) :
    decodeOp rex op bs = some (.op (.pop (extend (rex.getD .zero).b op)), bs) := by
  simp only [decodeOp, h, if_true, Nat.reduceEqDiff, if_false]

theorem decode_push (r : Reg) (rest : Bytes) :
    decode (pushBytes r ++ rest) = some (.op (.push r), rest) := by
  rcases pushByte_facts r with ⟨hop, hclass, hlow⟩
  rcases decode_basic false 0 r _ rest hop with ⟨rex, hrex, hdecode⟩
  rw [pushBytes, List.append_assoc, List.singleton_append, hdecode, decodeOp_push _ _ _ hclass,
    hrex, basicBits, extend_high r _ hlow]

theorem decode_pop (r : Reg) (rest : Bytes) :
    decode (popBytes r ++ rest) = some (.op (.pop r), rest) := by
  rcases popByte_facts r with ⟨hop, hclass, hlow⟩
  rcases decode_basic false 0 r _ rest hop with ⟨rex, hrex, hdecode⟩
  rw [popBytes, List.append_assoc, List.singleton_append, hdecode, decodeOp_pop _ _ _ hclass,
    hrex, basicBits, extend_high r _ hlow]

theorem short_basic (w : Bool) (src dst : Reg) (bs : Bytes) (h : bs.length ≤ 14) :
    (basicRex w src dst ++ bs).length ≤ maxInstr := by
  have hrex := length_basicRex w src dst
  rw [List.length_append, maxInstr]
  omega

def Encoded.push (r : Reg) : Encoded :=
  .plain (pushBytes r) (.op (.push r)) (decode_push r)
    (short_basic false 0 r _ (Nat.le_of_ble_eq_true rfl))

def Encoded.pop (r : Reg) : Encoded :=
  .plain (popBytes r) (.op (.pop r)) (decode_pop r)
    (short_basic false 0 r _ (Nat.le_of_ble_eq_true rfl))

/-! ## Operations on registers -/

/-- The opcode with a register as source. -/
def BinOp.opcode : BinOp → UInt8
  | .add => 0x01
  | .or => 0x09
  | .and => 0x21
  | .sub => 0x29
  | .xor => 0x31
  | .cmp => 0x39
  | .test => 0x85
  | .mov => 0x89

/-- What `emitAlu` writes. -/
def aluBytes (is64 : Bool) (op : UInt8) (src dst : Reg) : Bytes :=
  basicRex is64 src dst ++ [op, modrmByte 0xc0 src dst]

theorem length_aluBytes (is64 : Bool) (op : UInt8) (src dst : Reg) :
    (aluBytes is64 op src dst).length ≤ 3 := by
  have hrex := length_basicRex is64 src dst
  rw [aluBytes, List.length_append, List.length_cons, List.length_cons, List.length_nil]
  omega

theorem short_alu (is64 : Bool) (op : UInt8) (src dst : Reg) (bs : Bytes) (h : bs.length ≤ 8) :
    (aluBytes is64 op src dst ++ bs).length ≤ maxInstr := by
  have halu := length_aluBytes is64 op src dst
  rw [List.length_append, maxInstr]
  omega

/-- Decoding past the operand byte of two registers. -/
theorem decode_alu (is64 : Bool) (op : UInt8) (src dst : Reg) (bs : Bytes) (h : isOpcode op) :
    ∃ rex : Option Rex, rex.getD .zero = basicBits is64 src dst ∧
      decode (aluBytes is64 op src dst ++ bs) =
        decodeOp rex op.toNat (modrmByte 0xc0 src dst :: bs) := by
  rcases decode_basic is64 src dst op (modrmByte 0xc0 src dst :: bs) h with ⟨rex, hrex, hdecode⟩
  refine ⟨rex, hrex, ?_⟩
  rw [aluBytes, List.append_assoc]
  exact hdecode

theorem BinOp.opcode_facts (op : BinOp) : isOpcode op.opcode ∧
    ∀ rex bs, decodeOp rex op.opcode.toNat bs = decodeBin op (rex.getD .zero) bs := by
  cases op with
  | add => exact ⟨by decide, fun _ _ => rfl⟩
  | or => exact ⟨by decide, fun _ _ => rfl⟩
  | and => exact ⟨by decide, fun _ _ => rfl⟩
  | sub => exact ⟨by decide, fun _ _ => rfl⟩
  | xor => exact ⟨by decide, fun _ _ => rfl⟩
  | cmp => exact ⟨by decide, fun _ _ => rfl⟩
  | test => exact ⟨by decide, fun _ _ => rfl⟩
  | mov => exact ⟨by decide, fun _ _ => rfl⟩

theorem decode_bin (op : BinOp) (is64 : Bool) (src dst : Reg) (rest : Bytes) :
    decode (aluBytes is64 op.opcode src dst ++ rest) =
      some (.op (.bin op is64 (.reg src) dst), rest) := by
  rcases decode_alu is64 op.opcode src dst rest op.opcode_facts.1 with ⟨rex, hrex, hdecode⟩
  rw [hdecode, op.opcode_facts.2, hrex, decodeBin, takeModRM_reg]
  rfl

def Encoded.bin (op : BinOp) (is64 : Bool) (src dst : Reg) : Encoded :=
  .plain (aluBytes is64 op.opcode src dst) (.op (.bin op is64 (.reg src) dst))
    (decode_bin op is64 src dst) (short_basic is64 src dst _ (Nat.le_of_ble_eq_true rfl))

/-- The operations opcode `81` has an extension for. -/
inductive ImmOp where
  | add | or | and | sub | xor | cmp
deriving DecidableEq, Repr

def ImmOp.toBin : ImmOp → BinOp
  | .add => .add
  | .or => .or
  | .and => .and
  | .sub => .sub
  | .xor => .xor
  | .cmp => .cmp

def ImmOp.extension : ImmOp → Reg
  | .add => 0
  | .or => 1
  | .and => 4
  | .sub => 5
  | .xor => 6
  | .cmp => 7

theorem ImmOp.extension_facts (op : ImmOp) :
    binExtension (op.extension.val % 8) = some op.toBin := by
  cases op with
  | add => rfl
  | or => rfl
  | and => rfl
  | sub => rfl
  | xor => rfl
  | cmp => rfl

/-- What `emitAluImm32` writes. -/
def aluImmBytes (is64 : Bool) (op : UInt8) (src dst : Reg) (imm : Int) : Bytes :=
  aluBytes is64 op src dst ++ toLE 4 (u32 imm)

theorem decode_binImm (op : ImmOp) (is64 : Bool) (imm : Int) (dst : Reg) (rest : Bytes) :
    decode (aluImmBytes is64 0x81 op.extension dst imm ++ rest) =
      some (.op (.bin op.toBin is64 (.imm (wrap32 imm)) dst), rest) := by
  rcases decode_alu is64 0x81 op.extension dst (toLE 4 (u32 imm) ++ rest) (by decide) with
    ⟨rex, hrex, hdecode⟩
  have hop : decodeOp rex (0x81 : UInt8).toNat
      (modrmByte 0xc0 op.extension dst :: (toLE 4 (u32 imm) ++ rest)) =
      decodeBinImm (rex.getD .zero) (modrmByte 0xc0 op.extension dst ::
        (toLE 4 (u32 imm) ++ rest)) := rfl
  rw [aluImmBytes, List.append_assoc, hdecode, hop, hrex, decodeBinImm, takeModRM_reg]
  simp only [op.extension_facts, takeImm_four]
  rfl

def Encoded.binImm (op : ImmOp) (is64 : Bool) (imm : Int) (dst : Reg) : Encoded :=
  .plain (aluImmBytes is64 0x81 op.extension dst imm)
    (.op (.bin op.toBin is64 (.imm (wrap32 imm)) dst)) (decode_binImm op is64 imm dst)
    (short_alu is64 _ op.extension dst _ (Nat.le_of_ble_eq_true rfl))

theorem decode_movImm (is64 : Bool) (imm : Int) (dst : Reg) (rest : Bytes) :
    decode (aluImmBytes is64 0xc7 0 dst imm ++ rest) =
      some (.op (.bin .mov is64 (.imm (wrap32 imm)) dst), rest) := by
  rcases decode_alu is64 0xc7 0 dst (toLE 4 (u32 imm) ++ rest) (by decide) with
    ⟨rex, hrex, hdecode⟩
  have hop : decodeOp rex (0xc7 : UInt8).toNat
      (modrmByte 0xc0 0 dst :: (toLE 4 (u32 imm) ++ rest)) =
      decodeMovImm (rex.getD .zero) (modrmByte 0xc0 0 dst :: (toLE 4 (u32 imm) ++ rest)) := rfl
  rw [aluImmBytes, List.append_assoc, hdecode, hop, hrex, decodeMovImm, takeModRM_reg]
  simp only [takeImm_four]
  rfl

def Encoded.movImm (is64 : Bool) (imm : Int) (dst : Reg) : Encoded :=
  .plain (aluImmBytes is64 0xc7 0 dst imm) (.op (.bin .mov is64 (.imm (wrap32 imm)) dst))
    (decode_movImm is64 imm dst) (short_alu is64 _ 0 dst _ (Nat.le_of_ble_eq_true rfl))

theorem decode_testImm (is64 : Bool) (imm : Int) (dst : Reg) (rest : Bytes) :
    decode (aluImmBytes is64 0xf7 0 dst imm ++ rest) =
      some (.op (.bin .test is64 (.imm (wrap32 imm)) dst), rest) := by
  rcases decode_alu is64 0xf7 0 dst (toLE 4 (u32 imm) ++ rest) (by decide) with
    ⟨rex, hrex, hdecode⟩
  have hop : decodeOp rex (0xf7 : UInt8).toNat
      (modrmByte 0xc0 0 dst :: (toLE 4 (u32 imm) ++ rest)) =
      decodeUnary (rex.getD .zero) (modrmByte 0xc0 0 dst :: (toLE 4 (u32 imm) ++ rest)) := rfl
  rw [aluImmBytes, List.append_assoc, hdecode, hop, hrex, decodeUnary, takeModRM_reg]
  simp only [takeImm_four]
  rfl

def Encoded.testImm (is64 : Bool) (imm : Int) (dst : Reg) : Encoded :=
  .plain (aluImmBytes is64 0xf7 0 dst imm) (.op (.bin .test is64 (.imm (wrap32 imm)) dst))
    (decode_testImm is64 imm dst) (short_alu is64 _ 0 dst _ (Nat.le_of_ble_eq_true rfl))

def ShiftOp.extension : ShiftOp → Reg
  | .shl => 4
  | .shr => 5
  | .sar => 7

theorem ShiftOp.extension_facts (op : ShiftOp) :
    shiftExtension (op.extension.val % 8) = some op := by
  cases op with
  | shl => rfl
  | shr => rfl
  | sar => rfl

/-- What `emitAluImm8` writes. -/
def aluImm8Bytes (is64 : Bool) (op : UInt8) (src dst : Reg) (imm : Int) : Bytes :=
  aluBytes is64 op src dst ++ toLE 1 (u32 imm)

theorem decode_shiftImm (op : ShiftOp) (is64 : Bool) (imm : Int) (dst : Reg) (rest : Bytes) :
    decode (aluImm8Bytes is64 0xc1 op.extension dst imm ++ rest) =
      some (.op (.shift op is64 (.imm (u32 imm % 256)) dst), rest) := by
  rcases decode_alu is64 0xc1 op.extension dst (toLE 1 (u32 imm) ++ rest) (by decide) with
    ⟨rex, hrex, hdecode⟩
  have hop : decodeOp rex (0xc1 : UInt8).toNat
      (modrmByte 0xc0 op.extension dst :: (toLE 1 (u32 imm) ++ rest)) =
      decodeShift false (rex.getD .zero) (modrmByte 0xc0 op.extension dst ::
        (toLE 1 (u32 imm) ++ rest)) := rfl
  rw [aluImm8Bytes, List.append_assoc, hdecode, hop, hrex, decodeShift, takeModRM_reg]
  simp only [op.extension_facts, toLE, List.cons_append, List.nil_append, UInt8.toNat_ofNat']
  rfl

def Encoded.shiftImm (op : ShiftOp) (is64 : Bool) (imm : Int) (dst : Reg) : Encoded :=
  .plain (aluImm8Bytes is64 0xc1 op.extension dst imm)
    (.op (.shift op is64 (.imm (u32 imm % 256)) dst)) (decode_shiftImm op is64 imm dst)
    (short_alu is64 _ op.extension dst _ (Nat.le_of_ble_eq_true rfl))

theorem decode_shiftCl (op : ShiftOp) (is64 : Bool) (dst : Reg) (rest : Bytes) :
    decode (aluBytes is64 0xd3 op.extension dst ++ rest) =
      some (.op (.shift op is64 .cl dst), rest) := by
  rcases decode_alu is64 0xd3 op.extension dst rest (by decide) with ⟨rex, hrex, hdecode⟩
  have hop : decodeOp rex (0xd3 : UInt8).toNat (modrmByte 0xc0 op.extension dst :: rest) =
      decodeShift true (rex.getD .zero) (modrmByte 0xc0 op.extension dst :: rest) := rfl
  rw [hdecode, hop, hrex, decodeShift, takeModRM_reg]
  simp only [op.extension_facts]
  rfl

def Encoded.shiftCl (op : ShiftOp) (is64 : Bool) (dst : Reg) : Encoded :=
  .plain (aluBytes is64 0xd3 op.extension dst) (.op (.shift op is64 .cl dst))
    (decode_shiftCl op is64 dst) (short_basic is64 op.extension dst _ (Nat.le_of_ble_eq_true rfl))

theorem decode_neg (is64 : Bool) (dst : Reg) (rest : Bytes) :
    decode (aluBytes is64 0xf7 3 dst ++ rest) = some (.op (.neg is64 dst), rest) := by
  rcases decode_alu is64 0xf7 3 dst rest (by decide) with ⟨rex, hrex, hdecode⟩
  have hop : decodeOp rex (0xf7 : UInt8).toNat (modrmByte 0xc0 3 dst :: rest) =
      decodeUnary (rex.getD .zero) (modrmByte 0xc0 3 dst :: rest) := rfl
  rw [hdecode, hop, hrex, decodeUnary, takeModRM_reg]
  rfl

def Encoded.neg (is64 : Bool) (dst : Reg) : Encoded :=
  .plain (aluBytes is64 0xf7 3 dst) (.op (.neg is64 dst)) (decode_neg is64 dst)
    (short_basic is64 3 dst _ (Nat.le_of_ble_eq_true rfl))

/-- The rotation of 16 bits, with its prefix. -/
def rol16Bytes (n : Int) (dst : Reg) : Bytes :=
  0x66 :: aluImm8Bytes false 0xc1 0 dst n

theorem decode_rol16 (n : Int) (dst : Reg) (rest : Bytes) :
    decode (rol16Bytes n dst ++ rest) = some (.op (.rol16 (u32 n % 256) dst), rest) := by
  have hbytes : rol16Bytes n dst ++ rest = 0x66 :: (basicRex false 0 dst ++ 0xc1 ::
      (modrmByte 0xc0 0 dst :: (toLE 1 (u32 n) ++ rest))) := by
    simp only [rol16Bytes, aluImm8Bytes, aluBytes, List.cons_append, List.append_assoc,
      List.nil_append]
  have hop : ∀ bs, decodeOp16 (basicBits false 0 dst) (0xc1 : UInt8).toNat bs =
      decodeRol16 (basicBits false 0 dst) bs := fun _ => rfl
  rw [hbytes, decode_basic16 0 dst 0xc1 _ (by decide), hop, decodeRol16, takeModRM_reg]
  simp only [toLE, List.cons_append, List.nil_append, UInt8.toNat_ofNat']
  rfl

theorem short_rol16 (n : Int) (dst : Reg) : (rol16Bytes n dst).length ≤ maxInstr := by
  have halu := length_aluBytes false 0xc1 0 dst
  rw [rol16Bytes, aluImm8Bytes, List.length_cons, List.length_append, length_toLE, maxInstr]
  omega

def Encoded.rol16 (n : Int) (dst : Reg) : Encoded :=
  .plain (rol16Bytes n dst) (.op (.rol16 (u32 n % 256) dst)) (decode_rol16 n dst)
    (short_rol16 n dst)

/-- The two widening operations, whose other operands are fixed. -/
def mulDivBytes (is64 : Bool) (ext : Reg) : Bytes := aluBytes is64 0xf7 ext rcx

theorem decode_mul (is64 : Bool) (rest : Bytes) :
    decode (mulDivBytes is64 4 ++ rest) = some (.op (.mul is64 rcx), rest) := by
  rcases decode_alu is64 0xf7 4 rcx rest (by decide) with ⟨rex, hrex, hdecode⟩
  have hop : decodeOp rex (0xf7 : UInt8).toNat (modrmByte 0xc0 4 rcx :: rest) =
      decodeUnary (rex.getD .zero) (modrmByte 0xc0 4 rcx :: rest) := rfl
  rw [mulDivBytes, hdecode, hop, hrex, decodeUnary, takeModRM_reg]
  rfl

theorem decode_div (is64 : Bool) (rest : Bytes) :
    decode (mulDivBytes is64 6 ++ rest) = some (.op (.div is64 rcx), rest) := by
  rcases decode_alu is64 0xf7 6 rcx rest (by decide) with ⟨rex, hrex, hdecode⟩
  have hop : decodeOp rex (0xf7 : UInt8).toNat (modrmByte 0xc0 6 rcx :: rest) =
      decodeUnary (rex.getD .zero) (modrmByte 0xc0 6 rcx :: rest) := rfl
  rw [mulDivBytes, hdecode, hop, hrex, decodeUnary, takeModRM_reg]
  rfl

def Encoded.mul (is64 : Bool) : Encoded :=
  .plain (mulDivBytes is64 4) (.op (.mul is64 rcx)) (decode_mul is64)
    (short_basic is64 4 rcx _ (Nat.le_of_ble_eq_true rfl))

def Encoded.div (is64 : Bool) : Encoded :=
  .plain (mulDivBytes is64 6) (.op (.div is64 rcx)) (decode_div is64)
    (short_basic is64 6 rcx _ (Nat.le_of_ble_eq_true rfl))

theorem bswapByte_facts : ∀ r : Reg,
    (UInt8.ofNat (0xc8 ||| r.val % 8)).toNat / 8 = 25 ∧
    (UInt8.ofNat (0xc8 ||| r.val % 8)).toNat % 8 = r.val % 8 := by
  decide +kernel

def bswapBytes (is64 : Bool) (dst : Reg) : Bytes :=
  basicRex is64 0 dst ++ [0x0f, UInt8.ofNat (0xc8 ||| dst.val % 8)]

theorem decode_bswap (is64 : Bool) (dst : Reg) (rest : Bytes) :
    decode (bswapBytes is64 dst ++ rest) = some (.op (.bswap is64 dst), rest) := by
  rcases bswapByte_facts dst with ⟨hclass, hlow⟩
  rcases decode_basic is64 0 dst 0x0f (UInt8.ofNat (0xc8 ||| dst.val % 8) :: rest) (by decide) with
    ⟨rex, hrex, hdecode⟩
  have hop : ∀ bs, decodeOp rex (0x0f : UInt8).toNat bs = decodeTwoByte (rex.getD .zero) bs :=
    fun _ => rfl
  rw [bswapBytes, List.append_assoc, List.cons_append, List.cons_append, List.nil_append, hdecode,
    hop, hrex, decodeTwoByte, if_pos hclass, basicBits, extend_high dst _ hlow]

def Encoded.bswap (is64 : Bool) (dst : Reg) : Encoded :=
  .plain (bswapBytes is64 dst) (.op (.bswap is64 dst)) (decode_bswap is64 dst)
    (short_basic is64 0 dst _ (Nat.le_of_ble_eq_true rfl))

theorem movabsByte_facts : ∀ r : Reg, isOpcode (UInt8.ofNat (0xb8 ||| r.val % 8)) ∧
    (UInt8.ofNat (0xb8 ||| r.val % 8)).toNat / 8 = 23 ∧
    (UInt8.ofNat (0xb8 ||| r.val % 8)).toNat % 8 = r.val % 8 := by
  decide +kernel

def movabsBytes (v : Nat) (dst : Reg) : Bytes :=
  basicRex true 0 dst ++ UInt8.ofNat (0xb8 ||| dst.val % 8) :: toLE 8 v

theorem decode_movabs (v : Nat) (dst : Reg) (rest : Bytes) :
    decode (movabsBytes v dst ++ rest) = some (.op (.movabs (v % 256 ^ 8) dst), rest) := by
  rcases movabsByte_facts dst with ⟨hop, hclass, hlow⟩
  rcases decode_basic true 0 dst _ (toLE 8 v ++ rest) hop with ⟨rex, hrex, hdecode⟩
  have hlen : 8 ≤ (toLE 8 v ++ rest).length := by
    rw [List.length_append, length_toLE]
    omega
  rw [movabsBytes, List.append_assoc, List.cons_append, hdecode]
  simp only [decodeOp, hclass, Nat.reduceEqDiff, if_false, if_true, hrex, basicBits, hlen,
    and_self, List.take_left' (length_toLE 8 v), List.drop_left' (length_toLE 8 v), ofLE_toLE,
    extend_high dst _ hlow]

def Encoded.movabs (v : Nat) (dst : Reg) : Encoded :=
  .plain (movabsBytes v dst) (.op (.movabs (v % 256 ^ 8) dst)) (decode_movabs v dst)
    (short_basic true 0 dst _ (Nat.le_of_ble_eq_true rfl))

/-- The instruction `emitLoadImm` chooses. -/
def Encoded.loadImm (dst : Reg) (imm : Int) : Encoded :=
  if -2 ^ 31 ≤ imm ∧ imm ≤ 2 ^ 31 - 1 then .movImm true imm dst
  else .movabs (imm % 2 ^ 64).toNat dst

/-! ## Memory -/

/-- The number of bytes of an access. -/
def accessBytes : OperandSize → Nat
  | .s8 => 1
  | .s16 => 2
  | .s32 => 4
  | .s64 => 8

/-- The opcode of a load. -/
def loadOpcode : OperandSize → Bytes
  | .s8 => [0x0f, 0xb6]
  | .s16 => [0x0f, 0xb7]
  | .s32 => [0x8b]
  | .s64 => [0x8b]

/-- What `emitLoad` writes. -/
def loadBytes (size : OperandSize) (src dst : Reg) (offset : Int) : Bytes :=
  basicRex (size = .s64) dst src ++ (loadOpcode size ++ dispBytes dst src offset)

/-- The operand of an access at a distance from a register. -/
def atReg (base : Reg) (offset : Int) : MemRef := ⟨.reg base, none, wrap32 offset⟩

/-- Decoding a load up to its operand, whatever that is. -/
theorem decode_load_operand (size : OperandSize) (src dst : Reg) (bs : Bytes) :
    decode (basicRex (size = .s64) dst src ++ (loadOpcode size ++ bs)) =
      decodeFrom (.load (accessBytes size)) (basicBits (size = .s64) dst src) bs := by
  cases size with
  | s8 =>
      rcases decode_basic false dst src 0x0f (0xb6 :: bs) (by decide) with ⟨rex, hrex, hdecode⟩
      exact hdecode.trans (congrArg (decodeFrom (.load 1) · bs) hrex)
  | s16 =>
      rcases decode_basic false dst src 0x0f (0xb7 :: bs) (by decide) with ⟨rex, hrex, hdecode⟩
      exact hdecode.trans (congrArg (decodeFrom (.load 2) · bs) hrex)
  | s32 =>
      rcases decode_basic false dst src 0x8b bs (by decide) with ⟨rex, hrex, hdecode⟩
      refine hdecode.trans ?_
      have hop : decodeOp rex (0x8b : UInt8).toNat bs =
        decodeFrom (.load (if (rex.getD .zero).w then 8 else 4)) (rex.getD .zero) bs := rfl
      rw [hop, hrex]
      rfl
  | s64 =>
      rcases decode_basic true dst src 0x8b bs (by decide) with ⟨rex, hrex, hdecode⟩
      refine hdecode.trans ?_
      have hop : decodeOp rex (0x8b : UInt8).toNat bs =
        decodeFrom (.load (if (rex.getD .zero).w then 8 else 4)) (rex.getD .zero) bs := rfl
      rw [hop, hrex]
      rfl

theorem decode_load (size : OperandSize) (src dst : Reg) (offset : Int) (h : src.val % 8 ≠ 4)
    (rest : Bytes) :
    decode (loadBytes size src dst offset ++ rest) =
      some (.op (.load (accessBytes size) (atReg src offset) dst), rest) := by
  rw [loadBytes, List.append_assoc, List.append_assoc, decode_load_operand, decodeFrom,
    takeModRM_mem _ dst src offset rest h]
  rfl

theorem short_load (size : OperandSize) (src dst : Reg) (offset : Int) :
    (loadBytes size src dst offset).length ≤ maxInstr := by
  have hdisp := length_dispBytes dst src offset
  refine short_basic _ dst src _ ?_
  rw [List.length_append]
  cases size with
  | s8 => rw [loadOpcode, List.length_cons, List.length_cons, List.length_nil]; omega
  | s16 => rw [loadOpcode, List.length_cons, List.length_cons, List.length_nil]; omega
  | s32 => rw [loadOpcode, List.length_cons, List.length_nil]; omega
  | s64 => rw [loadOpcode, List.length_cons, List.length_nil]; omega

def Encoded.load (size : OperandSize) (src dst : Reg) (offset : Int) (h : src.val % 8 ≠ 4) :
    Encoded :=
  .plain (loadBytes size src dst offset) (.op (.load (accessBytes size) (atReg src offset) dst))
    (decode_load size src dst offset h) (short_load size src dst offset)

/-- What `emitStore` writes before the operand. -/
def storeHead (size : OperandSize) (src dst : Reg) : Bytes :=
  match size with
  | .s8 => [rexByte false (highReg src) false (highReg dst), 0x88]
  | .s16 => 0x66 :: (basicRex false src dst ++ [0x89])
  | .s32 => basicRex false src dst ++ [0x89]
  | .s64 => basicRex true src dst ++ [0x89]

/-- What `emitStore` writes. -/
def storeBytes (size : OperandSize) (src dst : Reg) (offset : Int) : Bytes :=
  storeHead size src dst ++ dispBytes src dst offset

/-- Decoding a store up to its operand, which is a place in memory. -/
theorem decode_store_operand (size : OperandSize) (src dst : Reg) (bs : Bytes)
    (x : Option (MemRef × Bytes)) (h : takeModRM (basicBits (size = .s64) src dst) bs =
      x.map fun p => (src, .mem p.1, p.2)) :
    decode (storeHead size src dst ++ bs) =
      x.map fun p => (.op (.store (accessBytes size) src p.1), p.2) := by
  have hplain : ∀ wide : Bool, takeModRM (basicBits wide src dst) bs =
      x.map (fun p => (src, .mem p.1, p.2)) →
      decode (basicRex wide src dst ++ 0x89 :: bs) =
        x.map fun p => (.op (.store (if wide then 8 else 4) src p.1), p.2) := by
    intro wide h
    rcases decode_basic wide src dst 0x89 bs (by decide) with ⟨rex, hrex, hdecode⟩
    have hop : decodeOp rex (0x89 : UInt8).toNat bs = decodeBin .mov (rex.getD .zero) bs := rfl
    rw [hdecode, hop, hrex, decodeBin, h]
    cases x with
    | none => rfl
    | some p => rfl
  cases size with
  -- The prefix is always there for a byte, since it also says which registers
  -- are meant.
  | s8 =>
      have hop : ∀ rex bs, decodeOp (some rex) (0x88 : UInt8).toNat bs =
        decodeStoreByte (some rex) bs := fun _ _ => rfl
      have hmem : takeModRM (basicBits false src dst) bs =
        x.map (fun p => (src, .mem p.1, p.2)) := h
      rw [basicBits] at hmem
      rw [storeHead, List.cons_append, List.cons_append, List.nil_append, decode_rex, hop,
        decodeStoreByte, Option.getD_some, hmem]
      cases x with
      | none => rfl
      | some p => rfl
  | s16 =>
      have hop : ∀ bs, decodeOp16 (basicBits false src dst) (0x89 : UInt8).toNat bs =
        decodeTo (.store 2) (basicBits false src dst) bs := fun _ => rfl
      have hmem : takeModRM (basicBits false src dst) bs =
        x.map (fun p => (src, .mem p.1, p.2)) := h
      rw [storeHead, List.cons_append, List.append_assoc, List.singleton_append,
        decode_basic16 src dst 0x89 _ (by decide), hop, decodeTo, hmem]
      cases x with
      | none => rfl
      | some p => rfl
  | s32 =>
      rw [storeHead, List.append_assoc, List.singleton_append]
      exact hplain false h
  | s64 =>
      rw [storeHead, List.append_assoc, List.singleton_append]
      exact hplain true h

theorem decode_store (size : OperandSize) (src dst : Reg) (offset : Int) (h : dst.val % 8 ≠ 4)
    (rest : Bytes) :
    decode (storeBytes size src dst offset ++ rest) =
      some (.op (.store (accessBytes size) src (atReg dst offset)), rest) := by
  rw [storeBytes, List.append_assoc]
  exact decode_store_operand size src dst _ (some (atReg dst offset, rest))
    (takeModRM_mem _ src dst offset rest h)

theorem length_storeHead (size : OperandSize) (src dst : Reg) :
    (storeHead size src dst).length ≤ 3 := by
  have hrex := length_basicRex (size = .s64) src dst
  cases size with
  | s8 => exact Nat.le_of_ble_eq_true rfl
  | s16 =>
      rw [storeHead, List.length_cons, List.length_append, List.length_singleton]
      exact Nat.add_le_add_right (Nat.add_le_add_right hrex 1) 1
  | s32 =>
      rw [storeHead, List.length_append, List.length_singleton]
      exact Nat.le_succ_of_le (Nat.add_le_add_right hrex 1)
  | s64 =>
      rw [storeHead, List.length_append, List.length_singleton]
      exact Nat.le_succ_of_le (Nat.add_le_add_right hrex 1)

theorem short_store (size : OperandSize) (src dst : Reg) (offset : Int) :
    (storeBytes size src dst offset).length ≤ maxInstr := by
  have hhead := length_storeHead size src dst
  have hdisp := length_dispBytes src dst offset
  rw [storeBytes, List.length_append, maxInstr]
  omega

def Encoded.store (size : OperandSize) (src dst : Reg) (offset : Int) (h : dst.val % 8 ≠ 4) :
    Encoded :=
  .plain (storeBytes size src dst offset)
    (.op (.store (accessBytes size) src (atReg dst offset))) (decode_store size src dst offset h)
    (short_store size src dst offset)

/-- The number of bytes the immediate of a store has. -/
def immBytes : OperandSize → Nat
  | .s8 => 1
  | .s16 => 2
  | .s32 => 4
  | .s64 => 4

/-- The immediate of a store, as its field has it. -/
def storedImm (size : OperandSize) (imm : Int) : Int :=
  toSigned (8 * immBytes size) (u32 imm % 256 ^ immBytes size)

/-- What `emitStoreImm32` writes before the operand. -/
def storeImmHead (size : OperandSize) (dst : Reg) : Bytes :=
  match size with
  | .s8 => basicRex false 0 dst ++ [0xc6]
  | .s16 => 0x66 :: (basicRex false 0 dst ++ [0xc7])
  | .s32 => basicRex false 0 dst ++ [0xc7]
  | .s64 => basicRex true 0 dst ++ [0xc7]

/-- What `emitStoreImm32` writes. -/
def storeImmBytes (size : OperandSize) (dst : Reg) (offset imm : Int) : Bytes :=
  storeImmHead size dst ++ (dispBytes 0 dst offset ++ toLE (immBytes size) (u32 imm))

theorem decode_storeImm (size : OperandSize) (dst : Reg) (offset imm : Int)
    (h : dst.val % 8 ≠ 4) (rest : Bytes) :
    decode (storeImmBytes size dst offset imm ++ rest) =
      some (.op (.storeImm (accessBytes size) (storedImm size imm) (atReg dst offset)), rest) := by
  rw [storeImmBytes, List.append_assoc, List.append_assoc]
  have himm := takeImm_toLE (immBytes size) (u32 imm) rest
  cases size with
  | s8 =>
      rcases decode_basic false 0 dst 0xc6 (dispBytes 0 dst offset ++
        (toLE 1 (u32 imm) ++ rest)) (by decide) with ⟨rex, hrex, hdecode⟩
      have hop : ∀ bs, decodeOp rex (0xc6 : UInt8).toNat bs =
        decodeStoreImm 1 (rex.getD .zero) bs := fun _ => rfl
      simp only [immBytes] at himm
      rw [storeImmHead, immBytes, List.append_assoc, List.singleton_append, hdecode, hop, hrex,
        decodeStoreImm, takeModRM_mem _ _ _ _ _ h]
      simp only [himm, Option.map_some]
      rfl
  | s16 =>
      have hop : ∀ bs, decodeOp16 (basicBits false 0 dst) (0xc7 : UInt8).toNat bs =
        decodeStoreImm 2 (basicBits false 0 dst) bs := fun _ => rfl
      simp only [immBytes] at himm
      rw [storeImmHead, immBytes, List.cons_append, List.append_assoc, List.singleton_append,
        decode_basic16 0 dst 0xc7 _ (by decide), hop, decodeStoreImm, takeModRM_mem _ _ _ _ _ h]
      simp only [himm, Option.map_some]
      rfl
  | s32 =>
      rcases decode_basic false 0 dst 0xc7 (dispBytes 0 dst offset ++
        (toLE 4 (u32 imm) ++ rest)) (by decide) with ⟨rex, hrex, hdecode⟩
      have hop : ∀ bs, decodeOp rex (0xc7 : UInt8).toNat bs =
        decodeMovImm (rex.getD .zero) bs := fun _ => rfl
      simp only [immBytes] at himm
      rw [storeImmHead, immBytes, List.append_assoc, List.singleton_append, hdecode, hop, hrex,
        decodeMovImm, takeModRM_mem _ _ _ _ _ h]
      simp only [himm, Option.map_some]
      rfl
  | s64 =>
      rcases decode_basic true 0 dst 0xc7 (dispBytes 0 dst offset ++
        (toLE 4 (u32 imm) ++ rest)) (by decide) with ⟨rex, hrex, hdecode⟩
      have hop : ∀ bs, decodeOp rex (0xc7 : UInt8).toNat bs =
        decodeMovImm (rex.getD .zero) bs := fun _ => rfl
      simp only [immBytes] at himm
      rw [storeImmHead, immBytes, List.append_assoc, List.singleton_append, hdecode, hop, hrex,
        decodeMovImm, takeModRM_mem _ _ _ _ _ h]
      simp only [himm, Option.map_some]
      rfl

theorem length_storeImmHead (size : OperandSize) (dst : Reg) :
    (storeImmHead size dst).length ≤ 3 := by
  have hrex := length_basicRex (size = .s64) 0 dst
  cases size with
  | s16 =>
      rw [storeImmHead, List.length_cons, List.length_append, List.length_singleton]
      exact Nat.add_le_add_right (Nat.add_le_add_right hrex 1) 1
  | _ =>
      rw [storeImmHead, List.length_append, List.length_singleton]
      exact Nat.le_succ_of_le (Nat.add_le_add_right hrex 1)

theorem short_storeImm (size : OperandSize) (dst : Reg) (offset imm : Int) :
    (storeImmBytes size dst offset imm).length ≤ maxInstr := by
  have hhead := length_storeImmHead size dst
  have hdisp := length_dispBytes 0 dst offset
  have himm : immBytes size ≤ 4 := by cases size <;> exact Nat.le_of_ble_eq_true rfl
  rw [storeImmBytes, List.length_append, List.length_append, length_toLE, maxInstr]
  omega

def Encoded.storeImm (size : OperandSize) (dst : Reg) (offset imm : Int) (h : dst.val % 8 ≠ 4) :
    Encoded :=
  .plain (storeImmBytes size dst offset imm)
    (.op (.storeImm (accessBytes size) (storedImm size imm) (atReg dst offset)))
    (decode_storeImm size dst offset imm h) (short_storeImm size dst offset imm)

/-! ## Bytes written out in the source -/

/-- The top of the stack. -/
def stackTop : MemRef := ⟨.reg rsp, none, 0⟩

/-- `sub r15, [rsp]`. -/
def Encoded.subUsage : Encoded :=
  .plain [0x4c, 0x2b, 0x3c, 0x24] (.op (.binMem .sub stackTop r15)) (fun _ => rfl)
    (Nat.le_of_ble_eq_true rfl)

/-- `add r15, [rsp]`. -/
def Encoded.addUsage : Encoded :=
  .plain [0x4c, 0x03, 0x3c, 0x24] (.op (.binMem .add stackTop r15)) (fun _ => rfl)
    (Nat.le_of_ble_eq_true rfl)

def storeUsageBytes (usage : Nat) : Bytes := [0x48, 0xc7, 0x04, 0x24] ++ toLE 4 usage

theorem decode_storeUsage (usage : Nat) (rest : Bytes) :
    decode (storeUsageBytes usage ++ rest) =
      some (.op (.storeImm 8 (toSigned 32 (usage % 256 ^ 4)) stackTop), rest) := by
  have hop : ∀ bs, decode (0x48 :: 0xc7 :: 0x04 :: 0x24 :: bs) =
    (takeImm 4 bs).map fun p => (.op (.storeImm 8 p.1 stackTop), p.2) := fun _ => rfl
  rw [storeUsageBytes, List.append_assoc]
  exact (hop _).trans (congrArg _ (takeImm_toLE 4 usage rest))

/-- `mov qword [rsp], usage`. -/
def Encoded.storeUsage (usage : Nat) : Encoded :=
  .plain (storeUsageBytes usage) (.op (.storeImm 8 (toSigned 32 (usage % 256 ^ 4)) stackTop))
    (decode_storeUsage usage) (Nat.le_of_ble_eq_true rfl)

/-- `mov [rsp], rax`. -/
def Encoded.storeTop : Encoded :=
  .plain [0x48, 0x89, 0x04, 0x24] (.op (.store 8 rax stackTop)) (fun _ => rfl)
    (Nat.le_of_ble_eq_true rfl)

/-- `cmove rcx, rdx`. -/
def Encoded.cmoveOne : Encoded :=
  .plain [0x48, 0x0f, 0x44, 0xca] (.op (.cmove rdx rcx)) (fun _ => rfl)
    (Nat.le_of_ble_eq_true rfl)

/-- `cmove rax, rcx`. -/
def Encoded.cmoveQuotient : Encoded :=
  .plain [0x48, 0x0f, 0x44, 0xc1] (.op (.cmove rcx rax)) (fun _ => rfl)
    (Nat.le_of_ble_eq_true rfl)

/-- `cmove rdx, rcx`. -/
def Encoded.cmoveRemainder : Encoded :=
  .plain [0x48, 0x0f, 0x44, 0xd1] (.op (.cmove rcx rdx)) (fun _ => rfl)
    (Nat.le_of_ble_eq_true rfl)

def Encoded.pushfq : Encoded := .plain [0x9c] (.op .pushfq) (fun _ => rfl)
    (Nat.le_of_ble_eq_true rfl)
def Encoded.popfq : Encoded := .plain [0x9d] (.op .popfq) (fun _ => rfl)
    (Nat.le_of_ble_eq_true rfl)
def Encoded.ret : Encoded := .plain [0xc3] (.ctl .ret) (fun _ => rfl)
    (Nat.le_of_ble_eq_true rfl)
def Encoded.pause : Encoded := .plain [0xf3, 0x90] (.op .pause) (fun _ => rfl)
    (Nat.le_of_ble_eq_true rfl)
def Encoded.callRax : Encoded := .plain [0xff, 0xd0] (.ctl (.callReg rax)) (fun _ => rfl)
    (Nat.le_of_ble_eq_true rfl)

theorem decode_fixed (op : UInt8) (mk : Int → Ctl) (v : Nat) (rest : Bytes)
    (h : ∀ bs, decode (op :: bs) = (takeImm 4 bs).map fun p => (.ctl (mk p.1), p.2)) :
    decode ((op :: toLE 4 v) ++ rest) = some (.ctl (mk (toSigned 32 (v % 256 ^ 4))), rest) :=
  (h _).trans (congrArg _ (takeImm_toLE 4 v rest))

/-- The call over the next jump. -/
def Encoded.callOver : Encoded :=
  .plain (0xe8 :: toLE 4 5) (.ctl (.call 5)) (fun rest => decode_fixed 0xe8 .call 5 rest
    (fun _ => rfl)) (Nat.le_of_ble_eq_true rfl)

/-- The jump whose distance nobody fills in. -/
def Encoded.jmpNext : Encoded :=
  .plain (0xe9 :: toLE 4 0) (.ctl (.jmp 0)) (fun rest => decode_fixed 0xe9 .jmp 0 rest
    (fun _ => rfl)) (Nat.le_of_ble_eq_true rfl)

/-! ## Instructions with a field -/

theorem decode_rel32 (head : Bytes) (mk : Int → Instr)
    (h : ∀ bs, decode (head ++ bs) = (takeImm 4 bs).map fun p => (mk p.1, p.2))
    (bs : Bytes) (v : Int) (rest : Bytes) (himm : takeImm 4 bs = some (v, rest)) :
    decode (head ++ bs) = some (mk v, rest) := by
  rw [h, himm]
  rfl

/-- A jump to an instruction, or to a place if one is given. -/
def Encoded.jmp (pc offset : Nat) : Encoded :=
  .rel [0xe9] .jumps ⟨pc, offset, false⟩ (fun rel => .ctl (.jmp rel))
    (decode_rel32 _ _ (fun _ => rfl)) (Nat.le_of_ble_eq_true rfl)

def Encoded.call (pc offset : Nat) : Encoded :=
  .rel [0xe8] .jumps ⟨pc, offset, false⟩ (fun rel => .ctl (.call rel))
    (decode_rel32 _ _ (fun _ => rfl)) (Nat.le_of_ble_eq_true rfl)

def Encoded.localCall (pc : Nat) : Encoded :=
  .rel [0xe8] .localCalls ⟨pc, 0, false⟩ (fun rel => .ctl (.call rel))
    (decode_rel32 _ _ (fun _ => rfl)) (Nat.le_of_ble_eq_true rfl)

theorem decode_near (bs : Bytes) (v : Int) (rest : Bytes)
    (himm : takeImm 1 bs = some (v, rest)) :
    decode ([0xeb] ++ bs) = some (.ctl (.jmp v), rest) := by
  have hop : decode (0xeb :: bs) = (takeImm 1 bs).map fun p => (.ctl (.jmp p.1), p.2) := rfl
  rw [List.singleton_append, hop, himm]
  rfl

def Encoded.nearJmp (pc offset : Nat) : Encoded :=
  .rel [0xeb] .jumps ⟨pc, offset, true⟩ (fun rel => .ctl (.jmp rel)) decode_near
    (Nat.le_of_ble_eq_true rfl)

/-- The condition a code of `emitJcc` stands for. -/
def Cond.code : Cond → UInt8
  | .b => 0x82
  | .ae => 0x83
  | .e => 0x84
  | .ne => 0x85
  | .be => 0x86
  | .a => 0x87
  | .l => 0x8c
  | .ge => 0x8d
  | .le => 0x8e
  | .g => 0x8f

theorem decode_jcc (cond : Cond) (bs : Bytes) :
    decode ([0x0f, cond.code] ++ bs) =
      (takeImm 4 bs).map fun p => (.ctl (.jcc cond p.1), p.2) := by
  cases cond with
  | b => rfl
  | ae => rfl
  | e => rfl
  | ne => rfl
  | be => rfl
  | a => rfl
  | l => rfl
  | ge => rfl
  | le => rfl
  | g => rfl

def Encoded.jcc (cond : Cond) (pc offset : Nat) : Encoded :=
  .rel [0x0f, cond.code] .jumps ⟨pc, offset, false⟩ (fun rel => .ctl (.jcc cond rel))
    (decode_rel32 _ _ (decode_jcc cond)) (Nat.le_of_ble_eq_true rfl)

/-- A register from memory, or from an address, relative to the next
    instruction. -/
theorem decodeFrom_rip (mk : MemRef → Reg → Op) (rex : Rex) (reg : Reg) (modrm : UInt8)
    (bs : Bytes) (h : takeModRM rex (modrm :: bs) =
      (takeImm 4 bs).map fun p => (reg, .mem ⟨.rip, none, p.1⟩, p.2)) :
    decodeFrom mk rex (modrm :: bs) =
      (takeImm 4 bs).map fun p => (.op (mk ⟨.rip, none, p.1⟩ reg), p.2) := by
  rw [decodeFrom, h]
  cases takeImm 4 bs with
  | none => rfl
  | some p => rfl

theorem decode_ripLoad (bs : Bytes) : decode ([0x48, 0x8b, 0x05] ++ bs) =
    (takeImm 4 bs).map fun p => (.op (.load 8 ⟨.rip, none, p.1⟩ rax), p.2) :=
  decodeFrom_rip (.load 8) ⟨true, false, false, false⟩ rax 0x05 bs rfl

theorem decode_ripLea (bs : Bytes) : decode ([0x4c, 0x8d, 0x15] ++ bs) =
    (takeImm 4 bs).map fun p => (.op (.lea ⟨.rip, none, p.1⟩ r10), p.2) :=
  decodeFrom_rip .lea ⟨true, true, false, false⟩ r10 0x15 bs rfl

/-- `mov rax, [rip + dispatcher]`. -/
def Encoded.loadDispatcher : Encoded :=
  .rel [0x48, 0x8b, 0x05] .loads ⟨targetPcExternalDispatcher, 0, false⟩
    (fun rel => .op (.load 8 ⟨.rip, none, rel⟩ rax)) (decode_rel32 _ _ decode_ripLoad)
    (Nat.le_of_ble_eq_true rfl)

/-- `lea r10, [rip + helper table]`. -/
def Encoded.leaTable : Encoded :=
  .rel [0x4c, 0x8d, 0x15] .leas ⟨targetLoadHelperTable, 0, false⟩
    (fun rel => .op (.lea ⟨.rip, none, rel⟩ r10)) (decode_rel32 _ _ decode_ripLea)
    (Nat.le_of_ble_eq_true rfl)

end X86

end UniBPF
