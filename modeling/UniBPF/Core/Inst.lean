import UniBPF.Lib.LittleEndian

/-!
# eBPF Instructions

The instruction format of `ebpf.h`: an eight-byte word holding an opcode, two
register numbers, a signed jump offset and a signed immediate.

The header gives every opcode a name of its own, built from a class, a source
bit and an operation. `Opcode.decode` goes the other way, from the byte to
the operation, and answers `none` on a byte the header does not name. The
table is not a full product of its parts: negation has no register form, the
byte swaps have no 64-bit form, and an unconditional jump, a call and an exit
exist only in the 64-bit jump class.

## Main definitions

* `EbpfInst`: One decoded instruction.
* `Opcode`: The operations the header names.
* `Opcode.decode`: The operation an opcode byte stands for.
* `toSigned`: The signed value of a two's complement field.
* `EbpfInst.ofWord`: Decoding an instruction word.
* `instWords`: The instruction words of a byte string.
-/

namespace UniBPF

open LittleEndian

/-- A byte string, as it stands in a file, a packet or a map value. -/
abbrev Bytes := List UInt8

/-- The value of a `w`-bit two's complement field. -/
def toSigned (w x : Nat) : Int :=
  if x < 2 ^ (w - 1) then x else (x : Int) - 2 ^ w

/-- `struct ebpf_inst`. -/
structure EbpfInst where
  opcode : Nat
  dst : Nat
  src : Nat
  offset : Int
  imm : Int
deriving DecidableEq, Repr

/-- Decode an instruction word. The destination is the low nibble of the
    register byte, the source the high one. -/
def EbpfInst.ofWord (word : Nat) : EbpfInst where
  opcode := word % 2 ^ 8
  dst := word / 2 ^ 8 % 2 ^ 4
  src := word / 2 ^ 12 % 2 ^ 4
  offset := toSigned 16 (word / 2 ^ 16 % 2 ^ 16)
  imm := toSigned 32 (word / 2 ^ 32 % 2 ^ 32)

/-- The instruction words of a byte string, eight bytes each. -/
def instWords (code : Bytes) : List Nat :=
  (List.range (code.length / 8)).map (fun i => readLE code (8 * i) 8)

inductive AluOp where
  | add | sub | mul | div | or | and | lsh | rsh | neg | mod | xor | mov | arsh
deriving DecidableEq, Repr

inductive JmpCond where
  | eq | gt | ge | set | ne | sgt | sge | lt | le | slt | sle
deriving DecidableEq, Repr

/-- Whether the second operand is the immediate or the source register. -/
inductive Operand where
  | imm | reg
deriving DecidableEq, Repr

inductive Opcode where
  | alu (is64 : Bool) (op : AluOp) (operand : Operand)
  | le
  | be
  | ldx (size : Nat)
  | st (size : Nat)
  | stx (size : Nat)
  | lddw
  | ja
  | jmp (is64 : Bool) (cond : JmpCond) (operand : Operand)
  | call
  | exit
deriving DecidableEq, Repr

/-- `EBPF_SRC_IMM` and `EBPF_SRC_REG`, bit 3 of the opcode. -/
def Operand.decode (op : Nat) : Operand :=
  if op / 8 % 2 = 1 then .reg else .imm

/-- The operation of an arithmetic opcode, its four high bits. -/
def AluOp.decode : Nat → Option AluOp
  | 0x00 => some .add
  | 0x10 => some .sub
  | 0x20 => some .mul
  | 0x30 => some .div
  | 0x40 => some .or
  | 0x50 => some .and
  | 0x60 => some .lsh
  | 0x70 => some .rsh
  | 0x80 => some .neg
  | 0x90 => some .mod
  | 0xa0 => some .xor
  | 0xb0 => some .mov
  | 0xc0 => some .arsh
  | _ => none

/-- The condition of a jump opcode, its four high bits. -/
def JmpCond.decode : Nat → Option JmpCond
  | 0x10 => some .eq
  | 0x20 => some .gt
  | 0x30 => some .ge
  | 0x40 => some .set
  | 0x50 => some .ne
  | 0x60 => some .sgt
  | 0x70 => some .sge
  | 0xa0 => some .lt
  | 0xb0 => some .le
  | 0xc0 => some .slt
  | 0xd0 => some .sle
  | _ => none

/-- The access size of a load or store opcode, in bytes: `EBPF_SIZE_W`, `_H`,
    `_B` and `_DW`. -/
def sizeOfOpcode : Nat → Nat
  | 0x60 => 4
  | 0x68 => 2
  | 0x70 => 1
  | _ => 8

/-- An arithmetic opcode. `EBPF_OP_NEG` and `EBPF_OP_NEG64` are named with
    the immediate bit only. -/
def Opcode.decodeAlu (is64 : Bool) (op : Nat) : Option Opcode :=
  match AluOp.decode (op / 16 * 16), Operand.decode op with
  | some .neg, .reg => none
  | some a, s => some (.alu is64 a s)
  | none, _ => none

/-- A conditional jump. -/
def Opcode.decodeJmp (is64 : Bool) (op : Nat) : Option Opcode :=
  (JmpCond.decode (op / 16 * 16)).map (fun c => .jmp is64 c (Operand.decode op))

/-- The operation an opcode byte stands for, by its class, the three low
    bits. -/
def Opcode.decode (op : Nat) : Option Opcode :=
  match op with
  | 0x18 => some .lddw
  | 0x05 => some .ja
  | 0x85 => some .call
  | 0x95 => some .exit
  | 0xd4 => some .le
  | 0xdc => some .be
  | _ =>
    match op % 8 with
    | 1 => if 0x60 ≤ op ∧ op < 0x80 then some (.ldx (sizeOfOpcode (op - 1))) else none
    | 2 => if 0x60 ≤ op ∧ op < 0x80 then some (.st (sizeOfOpcode (op - 2))) else none
    | 3 => if 0x60 ≤ op ∧ op < 0x80 then some (.stx (sizeOfOpcode (op - 3))) else none
    | 4 => Opcode.decodeAlu false op
    | 5 => Opcode.decodeJmp true op
    | 6 => Opcode.decodeJmp false op
    | 7 => Opcode.decodeAlu true op
    | _ => none

end UniBPF
