import UniBPF.Core.Exec

/-!
# The Native Machine

The processor that runs compiled code, as far as `ubpf_jit_x86_64.c` makes
use of it: sixteen registers of 64 bits, the flags that comparisons set, and
a memory that holds the code beside everything else.

Instructions are read from memory. `decode` follows the encoding as the
processor does, with the prefixes first, then the opcode, then the operand
byte and what it calls for. An operand byte whose low field is four is
followed by a second one with a base and a scaled index, whatever register
the writer of the first byte had in mind. Encodings the compiler has no use
for decode to nothing, and a machine that meets one stops.

A result that is not defined is not made up either. The flags are `none`
after an instruction that leaves them undefined, and after the few others
whose flags compiled code never looks at. An instruction that reads them then
stops the machine.

## Main definitions

* `Reg`, `Flags`, `MemRef`: Operands.
* `Op`, `Ctl`, `Instr`: Instructions that fall through, and those that may
  not.
* `decode`: The instruction at the head of a byte string, and what follows it.
* `Cpu`, `Op.exec`, `Ctl.exec`: What an instruction does.
* `Machine`, `step`: Fetch, decode and execute.
* `HostCode`, `nativeStep`: The same beside functions of the host.
-/

namespace UniBPF

open LittleEndian

namespace X86

/-- A register number, as the encoding has it. -/
abbrev Reg := Fin 16

instance neZeroReg : NeZero 16 := ⟨by decide⟩

abbrev rax : Reg := 0
abbrev rcx : Reg := 1
abbrev rdx : Reg := 2
abbrev rbx : Reg := 3
abbrev rsp : Reg := 4
abbrev rbp : Reg := 5
abbrev rsi : Reg := 6
abbrev rdi : Reg := 7
abbrev r8 : Reg := 8
abbrev r9 : Reg := 9
abbrev r10 : Reg := 10
abbrev r11 : Reg := 11
abbrev r12 : Reg := 12
abbrev r13 : Reg := 13
abbrev r14 : Reg := 14
abbrev r15 : Reg := 15

/-- What the first part of an address is. -/
inductive Base where
  | reg (r : Reg)
  /-- The address of the next instruction. -/
  | rip
  | none
deriving DecidableEq, Repr

/-- A memory operand. -/
structure MemRef where
  base : Base
  index : Option (Reg × Nat)
  disp : Int
deriving DecidableEq, Repr

inductive BinOp where
  | add | or | and | sub | xor | cmp | test | mov
deriving DecidableEq, Repr

inductive ShiftOp where
  | shl | shr | sar
deriving DecidableEq, Repr

/-- The second operand of an instruction on registers. -/
inductive Src where
  | reg (r : Reg)
  | imm (v : Int)
deriving DecidableEq, Repr

/-- How far a shift goes. -/
inductive Count where
  | cl
  | imm (n : Nat)
deriving DecidableEq, Repr

inductive Cond where
  | b | ae | e | ne | be | a | l | ge | le | g
deriving DecidableEq, Repr

/-- Instructions after which the next one is executed. `wide` is the 64-bit
    form, the other one works on 32 bits and clears the upper half. -/
inductive Op where
  | push (r : Reg)
  | pop (r : Reg)
  | pushfq
  | popfq
  | bin (op : BinOp) (wide : Bool) (src : Src) (dst : Reg)
  | shift (op : ShiftOp) (wide : Bool) (count : Count) (dst : Reg)
  /-- A rotation of the low 16 bits. -/
  | rol16 (n : Nat) (dst : Reg)
  | neg (wide : Bool) (dst : Reg)
  | mul (wide : Bool) (src : Reg)
  | div (wide : Bool) (src : Reg)
  | bswap (wide : Bool) (dst : Reg)
  | movabs (v : Nat) (dst : Reg)
  | load (size : Nat) (m : MemRef) (dst : Reg)
  | store (size : Nat) (src : Reg) (m : MemRef)
  | storeImm (size : Nat) (imm : Int) (m : MemRef)
  | binMem (op : BinOp) (m : MemRef) (dst : Reg)
  | lea (m : MemRef) (dst : Reg)
  | cmove (src dst : Reg)
  | pause
deriving DecidableEq, Repr

/-- Instructions that choose the next one. -/
inductive Ctl where
  | jmp (rel : Int)
  | jcc (cond : Cond) (rel : Int)
  | call (rel : Int)
  | callReg (r : Reg)
  | ret
deriving DecidableEq, Repr

inductive Instr where
  | op (o : Op)
  | ctl (c : Ctl)
deriving DecidableEq, Repr

/-! ## Decoding -/

/-- The bits of a REX prefix. -/
structure Rex where
  w : Bool
  r : Bool
  x : Bool
  b : Bool
deriving DecidableEq, Repr

def Rex.zero : Rex := ⟨false, false, false, false⟩

/-- The REX prefix a byte is, if it is one. -/
def rexOf (b : UInt8) : Option Rex :=
  if b.toNat / 16 = 4 then
    some ⟨b.toNat.testBit 3, b.toNat.testBit 2, b.toNat.testBit 1, b.toNat.testBit 0⟩
  else none

def takeRex : Bytes → Option Rex × Bytes
  | [] => (none, [])
  | b :: bs =>
    match rexOf b with
    | some rex => (some rex, bs)
    | none => (none, b :: bs)

/-- A register from three bits of an instruction and one of the prefix. -/
def extend (bit : Bool) (low : Nat) : Reg :=
  Fin.ofNat 16 ((if bit then 8 else 0) + low % 8)

/-- A signed field of `w` bytes. -/
def takeImm (w : Nat) (bs : Bytes) : Option (Int × Bytes) :=
  if w ≤ bs.length then some (toSigned (8 * w) (ofLE (bs.take w)), bs.drop w) else none

/-- The displacement the mode bits call for. -/
def takeDisp (mode : Nat) (bs : Bytes) : Option (Int × Bytes) :=
  match mode with
  | 0 => some (0, bs)
  | 1 => takeImm 1 bs
  | _ => takeImm 4 bs

/-- The second operand byte: scale, index and base. -/
def takeSib (rex : Rex) (mode : Nat) : Bytes → Option (MemRef × Bytes)
  | [] => none
  | sib :: bs =>
    let index := extend rex.x (sib.toNat / 8)
    let scaled := if index = rsp then none else some (index, 2 ^ (sib.toNat / 64))
    if sib.toNat % 8 = 5 ∧ mode = 0 then
      (takeImm 4 bs).map fun (d, rest) => (⟨.none, scaled, d⟩, rest)
    else
      (takeDisp mode bs).map fun (d, rest) => (⟨.reg (extend rex.b sib.toNat), scaled, d⟩, rest)

inductive RegMem where
  | reg (r : Reg)
  | mem (m : MemRef)
deriving DecidableEq, Repr

/-- The operand byte: a register, and a register or a place in memory. -/
def takeModRM (rex : Rex) : Bytes → Option (Reg × RegMem × Bytes)
  | [] => none
  | modrm :: bs =>
    let mode := modrm.toNat / 64
    let reg := extend rex.r (modrm.toNat / 8)
    let low := modrm.toNat % 8
    if mode = 3 then some (reg, .reg (extend rex.b low), bs)
    else if low = 4 then (takeSib rex mode bs).map fun (m, rest) => (reg, .mem m, rest)
    else if mode = 0 ∧ low = 5 then
      (takeImm 4 bs).map fun (d, rest) => (reg, .mem ⟨.rip, none, d⟩, rest)
    else
      (takeDisp mode bs).map fun (d, rest) =>
        (reg, .mem ⟨.reg (extend rex.b low), none, d⟩, rest)

/-- The opcodes with a register as source and a register as destination. -/
def binOpcode : Nat → Option BinOp
  | 0x01 => some .add
  | 0x09 => some .or
  | 0x21 => some .and
  | 0x29 => some .sub
  | 0x31 => some .xor
  | 0x39 => some .cmp
  | 0x85 => some .test
  | 0x89 => some .mov
  | _ => none

/-- The operation of opcode `81`, by its extension. -/
def binExtension : Nat → Option BinOp
  | 0 => some .add
  | 1 => some .or
  | 4 => some .and
  | 5 => some .sub
  | 6 => some .xor
  | 7 => some .cmp
  | _ => none

def shiftExtension : Nat → Option ShiftOp
  | 4 => some .shl
  | 5 => some .shr
  | 7 => some .sar
  | _ => none

def condOf : Nat → Option Cond
  | 0x82 => some .b
  | 0x83 => some .ae
  | 0x84 => some .e
  | 0x85 => some .ne
  | 0x86 => some .be
  | 0x87 => some .a
  | 0x8c => some .l
  | 0x8d => some .ge
  | 0x8e => some .le
  | 0x8f => some .g
  | _ => none

/-- Opcodes `01` to `89` with a register as source. Only a move has its
    destination in memory. -/
def decodeBin (op : BinOp) (rex : Rex) (bs : Bytes) : Option (Instr × Bytes) :=
  match takeModRM rex bs with
  | some (reg, .reg rm, rest) => some (.op (.bin op rex.w (.reg reg) rm), rest)
  | some (reg, .mem m, rest) =>
    if op = .mov then some (.op (.store (if rex.w then 8 else 4) reg m), rest) else none
  | none => none

/-- Opcode `88`. Without a prefix four of the registers are named
    differently. -/
def decodeStoreByte (rex : Option Rex) (bs : Bytes) : Option (Instr × Bytes) :=
  match takeModRM (rex.getD .zero) bs with
  | some (reg, .mem m, rest) =>
    if rex.isSome ∨ reg < 4 then some (.op (.store 1 reg m), rest) else none
  | _ => none

/-- Opcodes `03`, `2b`, `8b` and `8d`: a register from memory or from its
    address. -/
def decodeFrom (mk : MemRef → Reg → Op) (rex : Rex) (bs : Bytes) : Option (Instr × Bytes) :=
  match takeModRM rex bs with
  | some (reg, .mem m, rest) => some (.op (mk m reg), rest)
  | _ => none

/-- A register to memory. -/
def decodeTo (mk : Reg → MemRef → Op) (rex : Rex) (bs : Bytes) : Option (Instr × Bytes) :=
  match takeModRM rex bs with
  | some (reg, .mem m, rest) => some (.op (mk reg m), rest)
  | _ => none

/-- Opcode `81`. -/
def decodeBinImm (rex : Rex) (bs : Bytes) : Option (Instr × Bytes) :=
  match takeModRM rex bs with
  | some (ext, .reg rm, rest) =>
    match binExtension (ext.val % 8), takeImm 4 rest with
    | some op, some (v, rest) => some (.op (.bin op rex.w (.imm v) rm), rest)
    | _, _ => none
  | _ => none

/-- Opcode `c7`. -/
def decodeMovImm (rex : Rex) (bs : Bytes) : Option (Instr × Bytes) :=
  match takeModRM rex bs with
  | some (ext, rm, rest) =>
    if ext.val % 8 = 0 then
      (takeImm 4 rest).map fun (v, rest) =>
        match rm with
        | .reg rm => (.op (.bin .mov rex.w (.imm v) rm), rest)
        | .mem m => (.op (.storeImm (if rex.w then 8 else 4) v m), rest)
    else none
  | none => none

/-- Opcodes `c6`, and `c7` with a prefix: a short immediate to memory. -/
def decodeStoreImm (size : Nat) (rex : Rex) (bs : Bytes) : Option (Instr × Bytes) :=
  match takeModRM rex bs with
  | some (ext, .mem m, rest) =>
    if ext.val % 8 = 0 then
      (takeImm size rest).map fun (v, rest) => (.op (.storeImm size v m), rest)
    else none
  | _ => none

/-- Opcode `f7`. -/
def decodeUnary (rex : Rex) (bs : Bytes) : Option (Instr × Bytes) :=
  match takeModRM rex bs with
  | some (ext, .reg rm, rest) =>
    match ext.val % 8 with
    | 0 => (takeImm 4 rest).map fun (v, rest) => (.op (.bin .test rex.w (.imm v) rm), rest)
    | 3 => some (.op (.neg rex.w rm), rest)
    | 4 => some (.op (.mul rex.w rm), rest)
    | 6 => some (.op (.div rex.w rm), rest)
    | _ => none
  | _ => none

/-- Opcodes `c1` and `d3`. -/
def decodeShift (byCl : Bool) (rex : Rex) (bs : Bytes) : Option (Instr × Bytes) :=
  match takeModRM rex bs with
  | some (ext, .reg rm, rest) =>
    match shiftExtension (ext.val % 8), byCl, rest with
    | some op, true, rest => some (.op (.shift op rex.w .cl rm), rest)
    | some op, false, n :: rest => some (.op (.shift op rex.w (.imm n.toNat) rm), rest)
    | _, _, _ => none
  | _ => none

/-- Opcode `0f 44`. -/
def decodeCmove (rex : Rex) (bs : Bytes) : Option (Instr × Bytes) :=
  match takeModRM rex bs with
  | some (reg, .reg rm, rest) => if rex.w then some (.op (.cmove rm reg), rest) else none
  | _ => none

/-- Opcode `ff`. -/
def decodeCallReg (rex : Rex) (bs : Bytes) : Option (Instr × Bytes) :=
  match takeModRM rex bs with
  | some (ext, .reg rm, rest) =>
    if ext.val % 8 = 2 then some (.ctl (.callReg rm), rest) else none
  | _ => none

/-- The opcodes after `0f`. -/
def decodeTwoByte (rex : Rex) : Bytes → Option (Instr × Bytes)
  | [] => none
  | op :: bs =>
    if op.toNat / 8 = 25 then some (.op (.bswap rex.w (extend rex.b op.toNat)), bs)
    else match op.toNat, condOf op.toNat with
      | _, some cond => (takeImm 4 bs).map fun (rel, rest) => (.ctl (.jcc cond rel), rest)
      | 0xb6, none => decodeFrom (.load 1) rex bs
      | 0xb7, none => decodeFrom (.load 2) rex bs
      | 0x44, none => decodeCmove rex bs
      | _, none => none

/-- The opcodes without the 16-bit prefix. -/
def decodeOp (rex : Option Rex) (op : Nat) (bs : Bytes) : Option (Instr × Bytes) :=
  let rx := rex.getD .zero
  if op / 8 = 10 then some (.op (.push (extend rx.b op)), bs)
  else if op / 8 = 11 then some (.op (.pop (extend rx.b op)), bs)
  else if op / 8 = 23 then
    if rx.w ∧ 8 ≤ bs.length then
      some (.op (.movabs (ofLE (bs.take 8)) (extend rx.b op)), bs.drop 8)
    else none
  else match binOpcode op, op with
    | some bin, _ => decodeBin bin rx bs
    | none, 0x03 => if rx.w then decodeFrom (.binMem .add) rx bs else none
    | none, 0x2b => if rx.w then decodeFrom (.binMem .sub) rx bs else none
    | none, 0x0f => decodeTwoByte rx bs
    | none, 0x81 => decodeBinImm rx bs
    | none, 0x88 => decodeStoreByte rex bs
    | none, 0x8b => decodeFrom (.load (if rx.w then 8 else 4)) rx bs
    | none, 0x8d => if rx.w then decodeFrom .lea rx bs else none
    | none, 0x9c => some (.op .pushfq, bs)
    | none, 0x9d => some (.op .popfq, bs)
    | none, 0xc1 => decodeShift false rx bs
    | none, 0xd3 => decodeShift true rx bs
    | none, 0xc3 => some (.ctl .ret, bs)
    | none, 0xc6 => decodeStoreImm 1 rx bs
    | none, 0xc7 => decodeMovImm rx bs
    | none, 0xe8 => (takeImm 4 bs).map fun (rel, rest) => (.ctl (.call rel), rest)
    | none, 0xe9 => (takeImm 4 bs).map fun (rel, rest) => (.ctl (.jmp rel), rest)
    | none, 0xeb => (takeImm 1 bs).map fun (rel, rest) => (.ctl (.jmp rel), rest)
    | none, 0xf7 => decodeUnary rx bs
    | none, 0xff => decodeCallReg rx bs
    | none, _ => none

/-- Opcode `c1` with the 16-bit prefix. -/
def decodeRol16 (rex : Rex) (bs : Bytes) : Option (Instr × Bytes) :=
  match takeModRM rex bs with
  | some (ext, .reg rm, n :: rest) =>
    if ext.val % 8 = 0 then some (.op (.rol16 n.toNat rm), rest) else none
  | _ => none

/-- The opcodes with the 16-bit prefix. -/
def decodeOp16 (rex : Rex) (op : Nat) (bs : Bytes) : Option (Instr × Bytes) :=
  if rex.w then none
  else match op with
    | 0x89 => decodeTo (.store 2) rex bs
    | 0xc7 => decodeStoreImm 2 rex bs
    | 0xc1 => decodeRol16 rex bs
    | _ => none

/-- The instruction at the head of a byte string, and the bytes after it. -/
def decode (bs : Bytes) : Option (Instr × Bytes) :=
  match bs with
  | 0x66 :: bs =>
    match takeRex bs with
    | (rex, op :: bs) => decodeOp16 (rex.getD .zero) op.toNat bs
    | (_, []) => none
  | 0xf3 :: 0x90 :: bs => some (.op .pause, bs)
  | bs =>
    match takeRex bs with
    | (rex, op :: bs) => decodeOp rex op.toNat bs
    | (_, []) => none

/-! ## Execution -/

/-- The flags that comparisons set and conditions read. -/
structure Flags where
  zero : Bool
  sign : Bool
  carry : Bool
  overflow : Bool
deriving DecidableEq, Repr

/-- Registers, flags where they are defined, and memory. -/
structure Cpu where
  regs : Reg → Word
  flags : Option Flags
  mem : Memory

def Cpu.set (c : Cpu) (r : Reg) (v : Word) : Cpu :=
  { c with regs := Function.update c.regs r v }

/-- The address of a memory operand. `next` is the address of the next
    instruction. -/
def MemRef.addr (m : MemRef) (next : Word) (c : Cpu) : Word :=
  let base := match m.base with
    | .reg r => c.regs r
    | .rip => next
    | .none => 0
  let index := match m.index with
    | some (r, scale) => c.regs r * BitVec.ofNat 64 scale
    | none => 0
  base + index + BitVec.ofInt 64 m.disp

def Src.value (c : Cpu) : Src → Word
  | .reg r => c.regs r
  | .imm v => BitVec.ofInt 64 v

/-- What the first operand becomes, where the instruction changes it. -/
def BinOp.result {w : Nat} (op : BinOp) (a b : BitVec w) : Option (BitVec w) :=
  match op with
  | .add => some (a + b)
  | .or => some (a ||| b)
  | .and => some (a &&& b)
  | .sub => some (a - b)
  | .xor => some (a ^^^ b)
  | .mov => some b
  | .cmp => none
  | .test => none

def logicFlags {w : Nat} (v : BitVec w) : Flags :=
  ⟨v == 0, v.msb, false, false⟩

def subFlags {w : Nat} (a b : BitVec w) : Flags :=
  ⟨a - b == 0, (a - b).msb, decide (a.toNat < b.toNat), BitVec.ssubOverflow a b⟩

def BinOp.flags {w : Nat} (op : BinOp) (a b : BitVec w) (old : Option Flags) : Option Flags :=
  match op with
  | .add => some ⟨a + b == 0, (a + b).msb, BitVec.uaddOverflow a b, BitVec.saddOverflow a b⟩
  | .or => some (logicFlags (a ||| b))
  | .and => some (logicFlags (a &&& b))
  | .sub => some (subFlags a b)
  | .xor => some (logicFlags (a ^^^ b))
  | .cmp => some (subFlags a b)
  | .test => some (logicFlags (a &&& b))
  | .mov => old

/-- An operation on a register and a value. The narrow form clears the upper
    half of a register it writes, and leaves one it only compares alone. -/
def Cpu.bin (c : Cpu) (op : BinOp) (wide : Bool) (b : Word) (dst : Reg) : Cpu :=
  if wide then
    { c with
      regs := match op.result (c.regs dst) b with
        | some v => Function.update c.regs dst v
        | none => c.regs
      flags := op.flags (c.regs dst) b c.flags }
  else
    let low := (c.regs dst).setWidth 32
    { c with
      regs := match op.result low (b.setWidth 32) with
        | some v => Function.update c.regs dst (v.setWidth 64)
        | none => c.regs
      flags := op.flags low (b.setWidth 32) c.flags }

def ShiftOp.result {w : Nat} (op : ShiftOp) (a : BitVec w) (n : Nat) : BitVec w :=
  match op with
  | .shl => a <<< n
  | .shr => a >>> n
  | .sar => a.sshiftRight n

def Count.value (c : Cpu) : Count → Nat
  | .cl => (c.regs rcx).toNat % 256
  | .imm n => n

/-- A shift by the count modulo the width. -/
def Cpu.shift (c : Cpu) (op : ShiftOp) (wide : Bool) (n : Nat) (dst : Reg) : Cpu :=
  { c.set dst (if wide then op.result (c.regs dst) (n % 64)
      else (op.result ((c.regs dst).setWidth 32) (n % 32)).setWidth 64) with flags := none }

/-- The unsigned product, its low half in `rax` and its high half in `rdx`. -/
def Cpu.mul (c : Cpu) (wide : Bool) (src : Reg) : Cpu :=
  let w := if wide then 64 else 32
  let product := (c.regs rax).toNat % 2 ^ w * ((c.regs src).toNat % 2 ^ w)
  { (c.set rax (BitVec.ofNat 64 (product % 2 ^ w))).set rdx
      (BitVec.ofNat 64 (product / 2 ^ w)) with flags := none }

/-- The unsigned division of `rdx` and `rax` together. A divisor of zero and a
    quotient that does not fit are faults. -/
def Cpu.div (c : Cpu) (wide : Bool) (src : Reg) : Option Cpu :=
  let w := if wide then 64 else 32
  let dividend := (c.regs rdx).toNat % 2 ^ w * 2 ^ w + (c.regs rax).toNat % 2 ^ w
  let divisor := (c.regs src).toNat % 2 ^ w
  if divisor = 0 ∨ 2 ^ w ≤ dividend / divisor then none
  else some { (c.set rax (BitVec.ofNat 64 (dividend / divisor))).set rdx
    (BitVec.ofNat 64 (dividend % divisor)) with flags := none }

def Cpu.push (c : Cpu) (v : Word) : Option Cpu :=
  (c.mem.store (c.regs rsp - 8) 8 v.toNat).map fun mem =>
    { c.set rsp (c.regs rsp - 8) with mem := mem }

/-- The word on top of the stack, and the machine without it. -/
def Cpu.pop (c : Cpu) : Option (Word × Cpu) :=
  (c.mem.load (c.regs rsp) 8).map fun v =>
    (BitVec.ofNat 64 v, c.set rsp (c.regs rsp + 8))

/-- The flags in the places they have in the flags register. -/
def Flags.toWord (f : Flags) : Word :=
  BitVec.ofNat 64 (2 + f.carry.toNat + 64 * f.zero.toNat + 128 * f.sign.toNat +
    2048 * f.overflow.toNat)

def Flags.ofWord (v : Word) : Flags :=
  ⟨v.getLsbD 6, v.getLsbD 7, v.getLsbD 0, v.getLsbD 11⟩

def Cond.holds (f : Flags) : Cond → Bool
  | .b => f.carry
  | .ae => !f.carry
  | .e => f.zero
  | .ne => !f.zero
  | .be => f.carry || f.zero
  | .a => !f.carry && !f.zero
  | .l => f.sign != f.overflow
  | .ge => f.sign == f.overflow
  | .le => f.zero || f.sign != f.overflow
  | .g => !f.zero && f.sign == f.overflow

def Op.exec (next : Word) (o : Op) (c : Cpu) : Option Cpu :=
  match o with
  | .push r => c.push (c.regs r)
  | .pop r => c.pop.map fun (v, c) => c.set r v
  | .pushfq => c.flags.bind fun f => c.push f.toWord
  | .popfq => c.pop.map fun (v, c) => { c with flags := some (.ofWord v) }
  | .bin op wide src dst => some (c.bin op wide (src.value c) dst)
  | .shift op wide count dst => some (c.shift op wide (count.value c) dst)
  | .rol16 n dst =>
    let low := ((c.regs dst).setWidth 16).rotateLeft n
    some { c.set dst (c.regs dst >>> 16 <<< 16 ||| low.setWidth 64) with flags := none }
  | .neg wide dst =>
    let v := if wide then -c.regs dst else (-(c.regs dst).setWidth 32).setWidth 64
    some { c.set dst v with flags := none }
  | .mul wide src => some (c.mul wide src)
  | .div wide src => c.div wide src
  | .bswap wide dst =>
    let size := if wide then 8 else 4
    some (c.set dst (BitVec.ofNat 64 (swapBytes size ((c.regs dst).toNat % 256 ^ size))))
  | .movabs v dst => some (c.set dst (BitVec.ofNat 64 v))
  | .load size m dst =>
    (c.mem.load (m.addr next c) size).map fun v => c.set dst (BitVec.ofNat 64 v)
  | .store size src m =>
    (c.mem.store (m.addr next c) size (c.regs src).toNat).map fun mem => { c with mem := mem }
  | .storeImm size imm m =>
    (c.mem.store (m.addr next c) size (BitVec.ofInt 64 imm).toNat).map fun mem =>
      { c with mem := mem }
  | .binMem op m dst =>
    (c.mem.load (m.addr next c) 8).map fun v => c.bin op true (BitVec.ofNat 64 v) dst
  | .lea m dst => some (c.set dst (m.addr next c))
  | .cmove src dst =>
    c.flags.map fun f => if f.zero then c.set dst (c.regs src) else c
  | .pause => some c

/-- The machine afterwards and where it goes on. -/
def Ctl.exec (next : Word) (i : Ctl) (c : Cpu) : Option (Cpu × Word) :=
  match i with
  | .jmp rel => some (c, next + BitVec.ofInt 64 rel)
  | .jcc cond rel =>
    c.flags.map fun f => (c, if cond.holds f then next + BitVec.ofInt 64 rel else next)
  | .call rel => (c.push next).map fun c => (c, next + BitVec.ofInt 64 rel)
  | .callReg r => (c.push next).map fun c' => (c', c.regs r)
  | .ret => c.pop.map fun (v, c) => (c, v)

structure Machine where
  cpu : Cpu
  rip : Word

/-- One instruction, with the next one at `next`. -/
def Instr.exec (next : Word) (i : Instr) (c : Cpu) : Option Machine :=
  match i with
  | .op o => (o.exec next c).map fun c => ⟨c, next⟩
  | .ctl i => (i.exec next c).map fun (c, rip) => ⟨c, rip⟩

/-- The bytes from an address on, up to the first that is not mapped. -/
def fetch (m : Memory) (a : Word) : Nat → Bytes
  | 0 => []
  | n + 1 =>
    match m a with
    | some b => b :: fetch m (a + 1) n
    | none => []

/-- An instruction has at most fifteen bytes. -/
def maxInstr : Nat := 15

def step (s : Machine) : Option Machine :=
  let window := fetch s.cpu.mem s.rip maxInstr
  match decode window with
  | none => none
  | some (instr, rest) =>
    instr.exec (s.rip + BitVec.ofNat 64 (window.length - rest.length)) s.cpu

/-! ## Code from elsewhere -/

/-- What lies at an address where code of the host starts: the function as a
    whole, from the machine at its first instruction to the machine after its
    return. -/
abbrev HostCode := Word → Option (Cpu → Option Cpu)

/-- One step of a machine in which a function of the host runs in one go, and
    then returns to where the top of the stack says. -/
def nativeStep (host : HostCode) (s : Machine) : Option Machine :=
  match host s.rip with
  | none => step s
  | some f => (s.cpu.mem.load (s.cpu.regs rsp) 8).bind fun ret =>
      (f s.cpu).map fun c => ⟨c, BitVec.ofNat 64 ret⟩

end X86

end UniBPF
