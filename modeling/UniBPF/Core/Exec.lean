import UniBPF.Core.Vm

/-!
# The Interpreter

`ubpf_exec_ex`, on the program a machine holds. A run has sixteen registers
of 64 bits, of which the program can name eleven, a program counter of 16
bits, and an array of ten frames for local calls.

The checks of the interpreter are switched off in this system: it looks
neither at the bounds of an access nor at what a register held before. An
access is what the memory makes of it, and one that is not mapped ends the
run. There is no limit on the number of instructions either, so a run is
described by its steps.

A local call takes the frame pointer down by the stack usage of the function
that makes it, and the return takes it up again. The usage is looked up
whenever the program counter is at the start of a function, and kept in the
frame.

A helper is given the five argument registers and the memory, and may change
the latter. Registers no instruction has written hold what was there before.

## Main definitions

* `Memory`, `Memory.load`, `Memory.store`: The memory a run sees.
* `aluOp`, `jumpTaken`, `swapBytes`: Arithmetic, conditions and byte order.
* `StackFrame`, `ExecState`: The state of a run.
* `enterFunction`: The stack usage of the current function.
* `execInst`, `execStep`, `execFor`: One instruction, and a number of them.
* `execStart`: The state `ubpf_exec_ex` starts from.
-/

namespace UniBPF

/-- A 64-bit register. -/
abbrev Word := BitVec 64

/-- Mapped bytes by address. -/
abbrev Memory := Word → Option UInt8

/-- `ubpf_mem_load`: a number of bytes, least significant first. -/
def Memory.load (m : Memory) (a : Word) : Nat → Option Nat
  | 0 => some 0
  | n + 1 =>
    match m a, Memory.load m (a + 1) n with
    | some b, some rest => some (b.toNat + 256 * rest)
    | _, _ => none

/-- `ubpf_mem_store`: the low bytes of a number. -/
def Memory.store (m : Memory) (a : Word) : Nat → Nat → Option Memory
  | 0, _ => some m
  | n + 1, v =>
    match m a with
    | none => none
    | some _ => Memory.store (Function.update m a (some (UInt8.ofNat v))) (a + 1) n (v / 256)

/-- The arithmetic of one width. A division by zero yields zero and a remainder
    by zero the dividend; shifts count modulo the width. -/
def aluOp {w : Nat} (op : AluOp) (a b : BitVec w) : BitVec w :=
  match op with
  | .add => a + b
  | .sub => a - b
  | .mul => a * b
  | .div => if b = 0 then 0 else a / b
  | .or => a ||| b
  | .and => a &&& b
  | .lsh => a <<< (b.toNat % w)
  | .rsh => a >>> (b.toNat % w)
  | .neg => -a
  | .mod => if b = 0 then a else a % b
  | .xor => a ^^^ b
  | .mov => b
  | .arsh => a.sshiftRight (b.toNat % w)

/-- The 32-bit operations work on the low halves and clear the high one. -/
def alu (is64 : Bool) (op : AluOp) (a b : Word) : Word :=
  if is64 then aluOp op a b
  else (aluOp op (a.setWidth 32) (b.setWidth 32)).setWidth 64

/-- The conditions of one width. -/
def condHolds {w : Nat} (cond : JmpCond) (a b : BitVec w) : Bool :=
  match cond with
  | .eq => a == b
  | .gt => decide (b < a)
  | .ge => decide (b ≤ a)
  | .set => (a &&& b) != 0
  | .ne => a != b
  | .sgt => b.slt a
  | .sge => b.sle a
  | .lt => decide (a < b)
  | .le => decide (a ≤ b)
  | .slt => a.slt b
  | .sle => a.sle b

def jumpTaken (is64 : Bool) (cond : JmpCond) (a b : Word) : Bool :=
  if is64 then condHolds cond a b else condHolds cond (a.setWidth 32) (b.setWidth 32)

/-- The bytes of the low `n` bytes of a number, in the other order. -/
def swapBytes : Nat → Nat → Nat
  | 0, _ => 0
  | n + 1, x => x % 256 * 256 ^ n + swapBytes n (x / 256)

/-- `htole16`, `htole32`, `htole64` and their big-endian siblings, on a
    little-endian machine. Any other width changes nothing. -/
def byteOrder (big : Bool) (width : Int) (x : Word) : Word :=
  if width = 16 ∨ width = 32 ∨ width = 64 then
    let low := x.toNat % 2 ^ width.toNat
    BitVec.ofNat 64 (if big then swapBytes (width.toNat / 8) low else low)
  else x

/-- `struct ubpf_stack_frame`. -/
structure StackFrame where
  savedRegisters : Fin 4 → Word
  returnAddress : Nat
  stackUsage : Nat

/-- `UBPF_MAX_CALL_DEPTH`. -/
def maxCallDepth : Nat := 10

/-- The state of a run between two instructions. -/
structure ExecState where
  pc : Nat
  regs : Nat → Word
  mem : Memory
  frames : Nat → StackFrame
  frameIndex : Nat

/-- How an instruction leaves the run. -/
inductive ExecResult where
  | running (s : ExecState)
  /-- `ubpf_exec_ex` returns 0 and the value. -/
  | returned (value : Word)
  /-- It returns -1. -/
  | failed
  /-- An access to memory that is not there. -/
  | crashed

/-- The helpers: an index, the arguments and the memory to the result and the
    memory afterwards. -/
abbrev Externals := Nat → (Fin 5 → Word) → Memory → Option (Word × Memory)

def ExecState.setReg (s : ExecState) (r : Nat) (v : Word) : ExecState :=
  { s with regs := Function.update s.regs r v }

def ExecState.setFrame (s : ExecState) (i : Nat) (frame : StackFrame) : ExecState :=
  { s with frames := Function.update s.frames i frame }

/-- `pc += offset`, in 16 bits. -/
def ExecState.jump (s : ExecState) (offset : Int) : ExecState :=
  { s with pc := ((s.pc + offset) % 2 ^ 16).toNat }

/-- The second operand: the immediate, sign-extended, or the source
    register. -/
def ExecState.operand (s : ExecState) (inst : EbpfInst) : Operand → Word
  | .imm => BitVec.ofInt 64 inst.imm
  | .reg => s.regs inst.src

/-- At the start of a function the current frame learns its stack usage. -/
def enterFunction (program : ProgramView) (s : ExecState) : ExecState :=
  match program.stackUsage[s.pc]? with
  | some (some usage) =>
    if s.frameIndex < maxCallDepth then
      s.setFrame s.frameIndex { s.frames s.frameIndex with stackUsage := usage }
    else s
  | _ => s

/-- A local call: the caller's registers are saved in its frame, and the frame
    pointer goes down by the caller's stack usage. -/
def localCall (s : ExecState) (imm : Int) : ExecResult :=
  if maxCallDepth ≤ s.frameIndex then .failed
  else
    let frame := { s.frames s.frameIndex with
      savedRegisters := fun i => s.regs (6 + i)
      returnAddress := s.pc }
    let called := { s.setFrame s.frameIndex frame with frameIndex := s.frameIndex + 1 }
    .running ((called.setReg 10 (s.regs 10 - BitVec.ofNat 64 frame.stackUsage)).jump imm)

/-- A return from a local call. -/
def localReturn (s : ExecState) : ExecState :=
  let frame := s.frames (s.frameIndex - 1)
  { s with
    frameIndex := s.frameIndex - 1
    pc := frame.returnAddress
    regs := fun r =>
      if h : 6 ≤ r ∧ r < 10 then frame.savedRegisters ⟨r - 6, by omega⟩
      else if r = 10 then s.regs 10 + BitVec.ofNat 64 frame.stackUsage
      else s.regs r }

/-- A call of a helper. The result of the unwind helper can end the run. -/
def externalCall (program : ProgramView) (ext : Externals) (s : ExecState) (imm : Int) :
    ExecResult :=
  match ext imm.toNat (fun i => s.regs (1 + i)) s.mem with
  | none => .crashed
  | some (result, mem) =>
    if program.unwindStackExtensionIndex = some imm.toNat ∧ result = 0 then .returned result
    else .running ({ s with mem := mem }.setReg 0 result)

/-- The switch of `ubpf_exec_ex`. The program counter is already past the
    instruction. -/
def execInst (program : ProgramView) (ext : Externals) (s : ExecState) (inst : EbpfInst)
    (op : Opcode) : ExecResult :=
  match op with
  | .alu is64 op operand =>
    .running (s.setReg inst.dst (alu is64 op (s.regs inst.dst) (s.operand inst operand)))
  | .le => .running (s.setReg inst.dst (byteOrder false inst.imm (s.regs inst.dst)))
  | .be => .running (s.setReg inst.dst (byteOrder true inst.imm (s.regs inst.dst)))
  | .ldx size =>
    match s.mem.load (s.regs inst.src + BitVec.ofInt 64 inst.offset) size with
    | none => .crashed
    | some v => .running (s.setReg inst.dst (BitVec.ofNat 64 v))
  | .st size =>
    match s.mem.store (s.regs inst.dst + BitVec.ofInt 64 inst.offset) size
        (BitVec.ofInt 64 inst.imm).toNat with
    | none => .crashed
    | some mem => .running { s with mem := mem }
  | .stx size =>
    match s.mem.store (s.regs inst.dst + BitVec.ofInt 64 inst.offset) size
        (s.regs inst.src).toNat with
    | none => .crashed
    | some mem => .running { s with mem := mem }
  | .lddw =>
    -- The second word of the load is fetched and stepped over.
    match program.insts[s.pc]? with
    | none => .crashed
    | some next =>
      .running ((s.setReg inst.dst (BitVec.ofNat 64 (u32 inst.imm ||| u32 next.imm <<< 32))).jump 1)
  | .ja => .running (s.jump inst.offset)
  | .jmp is64 cond operand =>
    .running (if jumpTaken is64 cond (s.regs inst.dst) (s.operand inst operand) then
      s.jump inst.offset else s)
  | .exit => if 0 < s.frameIndex then .running (localReturn s) else .returned (s.regs 0)
  | .call =>
    if inst.src = 0 then externalCall program ext s inst.imm
    else if inst.src = 1 then localCall s inst.imm
    else if inst.src = 2 then .failed
    else .running s

/-- One round of the loop of `ubpf_exec_ex`. -/
def execStep (program : ProgramView) (ext : Externals) (s : ExecState) : ExecResult :=
  if program.numInsts ≤ s.pc then .failed
  else
    match program.insts[s.pc]? with
    | none => .crashed
    | some inst =>
      match Opcode.decode inst.opcode with
      | none => .failed
      | some op => execInst program ext ((enterFunction program s).jump 1) inst op

/-- A number of rounds, or fewer if the run ends. -/
def execFor (program : ProgramView) (ext : Externals) : Nat → ExecState → ExecResult
  | 0, s => .running s
  | n + 1, s =>
    match execStep program ext s with
    | .running s' => execFor program ext n s'
    | result => result

/-- The state `ubpf_exec_ex` starts from: the packet in `r1` and `r2`, the end
    of the stack in `r10`, and whatever was there in the other registers. -/
def execStart (junk : Nat → Word) (mem : Memory) (packet packetLen stackStart : Word)
    (stackLength : Nat) : ExecState where
  pc := 0
  regs := Function.update (Function.update (Function.update junk 1 packet) 2 packetLen) 10
    (stackStart + BitVec.ofNat 64 stackLength)
  mem := mem
  frames := fun _ => ⟨fun _ => 0, 0, 0⟩
  frameIndex := 0

end UniBPF
