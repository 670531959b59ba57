import UniBPF.Core.X86
import UniBPF.Lib.Relocations

/-!
# The x86-64 Translator

`ubpf_jit_x86_64.c` with its header and `ubpf_jit_support.c`, for the System V
calling convention and with retpolines switched off, as `ubpf_config.h` has
it. The translator walks over the instructions once and emits native code
into a buffer. Where an instruction refers to a place that is not known yet
it emits zeros and notes the place in a table, and a second pass fills in the
distances.

`JitState.buf` is the part of the buffer that is filled. Once an emission
fails, for want of space or because a table is full, no more bytes are
emitted, but the walk goes on to the end of the instruction and tables still
grow. The error is looked at after the last instruction, and not again after
the epilogue. What the second pass writes past the filled part is not kept.

The targets in the tables are instruction numbers. A few numbers stand for
other places, among them one below the largest program.

An allocation is taken to succeed, and offsets are plain numbers, which the
size of the buffer keeps far from overflowing.

## Main definitions

* `PatchableRelative`, `JitState`: `struct patchable_relative` and `struct
  jit_state`.
* `emitBytes` and the emitters of single instructions.
* `muldivmod`, `emitLocalCall`, `emitDispatchedExternalHelperCall`,
  `emitInst`: The code for one instruction.
* `translate`: The first pass.
* `resolvePatchableRelatives`: The second pass.
* `ubpfTranslateX86`: Both.
-/

namespace UniBPF

open LittleEndian X86 Relocations

/-- `struct patchable_relative`. -/
structure PatchableRelative where
  offsetLoc : Nat
  targetPc : Nat
  /-- Overrides the target where it is not zero. -/
  targetOffset : Nat
  near : Bool
deriving DecidableEq, Repr

/-- `enum JitProgress`. -/
inductive JitProgress where
  | noError
  | tooManyJumps
  | tooManyLoads
  | tooManyLeas
  | tooManyLocalCalls
  | notEnoughSpace
  | unexpectedInstruction
  | unknownInstruction
deriving DecidableEq, Repr

/-- `TARGET_PC_EXIT`. -/
def targetPcExit : Nat := 0xffffffff

/-- `TARGET_PC_RETPOLINE`. -/
def targetPcRetpoline : Nat := 0x0101

/-- `TARGET_PC_EXTERNAL_DISPATCHER`. -/
def targetPcExternalDispatcher : Nat := 0x010101

/-- `TARGET_LOAD_HELPER_TABLE`. -/
def targetLoadHelperTable : Nat := 0x01010101

/-- `struct jit_state`, without the fields nothing reads. -/
structure JitState where
  buf : Bytes
  size : Nat
  pcLocs : Nat → Nat
  exitLoc : Nat
  retpolineLoc : Nat
  dispatcherLoc : Nat
  helperTableLoc : Nat
  jitStatus : JitProgress
  jitMode : JitMode
  jumps : List PatchableRelative
  loads : List PatchableRelative
  leas : List PatchableRelative
  localCalls : List PatchableRelative
  bpfFunctionPrologSize : Nat

/-- `initialize_jit_state_result`. -/
def initializeJitState (size : Nat) (mode : JitMode) : JitState where
  buf := []
  size := size
  pcLocs := fun _ => 0
  exitLoc := 0
  retpolineLoc := 0
  dispatcherLoc := 0
  helperTableLoc := 0
  jitStatus := .noError
  jitMode := mode
  jumps := []
  loads := []
  leas := []
  localCalls := []
  bpfFunctionPrologSize := 0

def JitState.offset (state : JitState) : Nat :=
  state.buf.length

/-! ## Bytes and tables -/

def emitBytes (data : Bytes) (state : JitState) : JitState :=
  if state.jitStatus ≠ .noError then state
  else if state.size < state.offset + data.length then
    { state with jitStatus := .notEnoughSpace }
  else { state with buf := state.buf ++ data }

def emit1 (x : Nat) : JitState → JitState := emitBytes (toLE 1 x)
def emit2 (x : Nat) : JitState → JitState := emitBytes (toLE 2 x)
def emit4 (x : Nat) : JitState → JitState := emitBytes (toLE 4 x)
def emit8 (x : Nat) : JitState → JitState := emitBytes (toLE 8 x)

/-- `emit_4byte_offset_placeholder`. -/
def emit4byteOffsetPlaceholder : JitState → JitState := emit4 0

/-- `emit_jump_address_reloc`: where the distance goes, and the state. -/
def emitJumpAddressReloc (targetPc : Nat) (state : JitState) : Nat × JitState :=
  if state.jumps.length = maxInsts then (0, { state with jitStatus := .tooManyJumps })
  else (state.offset, emit4byteOffsetPlaceholder
    { state with jumps := state.jumps ++ [⟨state.offset, targetPc, 0, false⟩] })

/-- `emit_near_jump_address_reloc`. -/
def emitNearJumpAddressReloc (targetPc : Nat) (state : JitState) : Nat × JitState :=
  if state.jumps.length = maxInsts then (0, { state with jitStatus := .tooManyJumps })
  else (state.offset, emit1 0
    { state with jumps := state.jumps ++ [⟨state.offset, targetPc, 0, true⟩] })

/-- `emit_local_call_address_reloc`. -/
def emitLocalCallAddressReloc (targetPc : Nat) (state : JitState) : JitState :=
  if state.localCalls.length = maxInsts then { state with jitStatus := .tooManyLocalCalls }
  else emit4byteOffsetPlaceholder
    { state with localCalls := state.localCalls ++ [⟨state.offset, targetPc, 0, false⟩] }

/-- `note_load`. -/
def noteLoad (targetPc : Nat) (state : JitState) : JitState :=
  { state with loads := state.loads ++ [⟨state.offset, targetPc, 0, false⟩] }

/-- `note_lea`. -/
def noteLea (targetPc : Nat) (state : JitState) : JitState :=
  { state with leas := state.leas ++ [⟨state.offset, targetPc, 0, false⟩] }

/-- `fixup_jump_target`, on every entry for the place. -/
def fixupJumpTarget (table : List PatchableRelative) (srcOffset destOffset : Nat) :
    List PatchableRelative :=
  table.map fun jump =>
    if jump.offsetLoc = srcOffset then { jump with targetOffset := destOffset } else jump

/-- `fixup_jump_target` on the table of jumps. -/
def JitState.redirect (state : JitState) (srcOffset destOffset : Nat) : JitState :=
  { state with jumps := fixupJumpTarget state.jumps srcOffset destOffset }

/-- `emit_jump_target`. -/
def emitJumpTarget (jumpSrc : Nat) (state : JitState) : JitState :=
  state.redirect jumpSrc state.offset

/-! ## Single instructions -/

/-- `emit_modrm`. -/
def emitModrm (mode : Nat) (r m : Reg) : JitState → JitState :=
  emit1 (mode ||| (r.val % 8) <<< 3 ||| m.val % 8)

/-- `emit_modrm_reg2reg`. -/
def emitModrmReg2reg (r m : Reg) : JitState → JitState := emitModrm 0xc0 r m

/-- `emit_modrm_and_displacement`. -/
def emitModrmAndDisplacement (r m : Reg) (d : Int) (state : JitState) : JitState :=
  if d = 0 ∧ m.val % 8 ≠ 5 then emitModrm 0x00 r m state
  else if -128 ≤ d ∧ d ≤ 127 then emit1 (u32 d) (emitModrm 0x40 r m state)
  else emit4 (u32 d) (emitModrm 0x80 r m state)

/-- `emit_rex`. -/
def emitRex (w r x b : Bool) : JitState → JitState :=
  emit1 (0x40 ||| w.toNat <<< 3 ||| r.toNat <<< 2 ||| x.toNat <<< 1 ||| b.toNat)

/-- The top bit of a register number. -/
def highReg (r : Reg) : Bool := 8 ≤ r.val

/-- `emit_basic_rex`. -/
def emitBasicRex (w : Bool) (src dst : Reg) (state : JitState) : JitState :=
  if w || highReg src || highReg dst then emitRex w (highReg src) false (highReg dst) state
  else state

/-- `emit_push`. -/
def emitPush (r : Reg) (state : JitState) : JitState :=
  emit1 (0x50 ||| r.val % 8) (emitBasicRex false 0 r state)

/-- `emit_pop`. -/
def emitPop (r : Reg) (state : JitState) : JitState :=
  emit1 (0x58 ||| r.val % 8) (emitBasicRex false 0 r state)

/-- `emit_alu32` and `emit_alu64`. -/
def emitAlu (is64 : Bool) (op : Nat) (src dst : Reg) (state : JitState) : JitState :=
  emitModrmReg2reg src dst (emit1 op (emitBasicRex is64 src dst state))

def emitAlu32 : Nat → Reg → Reg → JitState → JitState := emitAlu false
def emitAlu64 : Nat → Reg → Reg → JitState → JitState := emitAlu true

/-- `emit_alu32_imm32` and `emit_alu64_imm32`. -/
def emitAluImm32 (is64 : Bool) (op : Nat) (src dst : Reg) (imm : Int) (state : JitState) :
    JitState :=
  emit4 (u32 imm) (emitAlu is64 op src dst state)

def emitAlu32Imm32 : Nat → Reg → Reg → Int → JitState → JitState := emitAluImm32 false
def emitAlu64Imm32 : Nat → Reg → Reg → Int → JitState → JitState := emitAluImm32 true

/-- `emit_alu32_imm8` and `emit_alu64_imm8`. -/
def emitAluImm8 (is64 : Bool) (op : Nat) (src dst : Reg) (imm : Int) (state : JitState) :
    JitState :=
  emit1 (u32 imm) (emitAlu is64 op src dst state)

def emitAlu32Imm8 : Nat → Reg → Reg → Int → JitState → JitState := emitAluImm8 false
def emitAlu64Imm8 : Nat → Reg → Reg → Int → JitState → JitState := emitAluImm8 true

/-- `emit_truncate_u32`. -/
def emitTruncateU32 (destination : Reg) : JitState → JitState :=
  emitAlu32Imm32 0x81 4 destination (-1)

/-- `emit_mov`. -/
def emitMov (src dst : Reg) : JitState → JitState := emitAlu64 0x89 src dst

/-- `emit_cmp_imm32` and `emit_cmp32_imm32`. -/
def emitCmpImm32 (is64 : Bool) (dst : Reg) (imm : Int) : JitState → JitState :=
  emitAluImm32 is64 0x81 7 dst imm

/-- `emit_cmp` and `emit_cmp32`. -/
def emitCmp (is64 : Bool) (src dst : Reg) : JitState → JitState := emitAlu is64 0x39 src dst

/-- `emit_jcc`. -/
def emitJcc (code targetPc : Nat) (state : JitState) : Nat × JitState :=
  emitJumpAddressReloc targetPc (emit1 code (emit1 0x0f state))

/-- `enum operand_size`. -/
inductive OperandSize where
  | s8 | s16 | s32 | s64
deriving DecidableEq, Repr

/-- The size of an access of so many bytes. -/
def OperandSize.ofBytes : Nat → OperandSize
  | 1 => .s8
  | 2 => .s16
  | 4 => .s32
  | _ => .s64

/-- `emit_load`. -/
def emitLoad (size : OperandSize) (src dst : Reg) (offset : Int) (state : JitState) : JitState :=
  let state := emitBasicRex (size = .s64) dst src state
  let state := match size with
    | .s8 => emit1 0xb6 (emit1 0x0f state)
    | .s16 => emit1 0xb7 (emit1 0x0f state)
    | .s32 | .s64 => emit1 0x8b state
  emitModrmAndDisplacement dst src offset state

/-- `emit_load_imm`. -/
def emitLoadImm (dst : Reg) (imm : Int) (state : JitState) : JitState :=
  if -2 ^ 31 ≤ imm ∧ imm ≤ 2 ^ 31 - 1 then emitAlu64Imm32 0xc7 0 dst imm state
  else
    emit8 (imm % 2 ^ 64).toNat (emit1 (0xb8 ||| dst.val % 8) (emitBasicRex true 0 dst state))

/-- `emit_rip_relative_load`. -/
def emitRipRelativeLoad (dst : Reg) (relativeLoadTgt : Nat) (state : JitState) : JitState :=
  if state.loads.length = maxInsts then { state with jitStatus := .tooManyLoads }
  else
    let state := emitModrm 0 dst 5 (emit1 0x8b (emitRex true false false false state))
    emit4byteOffsetPlaceholder (noteLoad relativeLoadTgt state)

/-- `emit_rip_relative_lea`. -/
def emitRipRelativeLea (dst : Reg) (leaTgt : Nat) (state : JitState) : JitState :=
  if state.leas.length = maxInsts then { state with jitStatus := .tooManyLeas }
  else
    let state := emitModrm 0 dst 5 (emit1 0x8d (emitRex true true false false state))
    emit4byteOffsetPlaceholder (noteLea leaTgt state)

/-- `emit_store`. -/
def emitStore (size : OperandSize) (src dst : Reg) (offset : Int) (state : JitState) : JitState :=
  let state := if size = .s16 then emit1 0x66 state else state
  let rexw : Bool := size = .s64
  let state := if rexw || highReg src || highReg dst || size = .s8 then
    emitRex rexw (highReg src) false (highReg dst) state else state
  let state := emit1 (if size = .s8 then 0x88 else 0x89) state
  emitModrmAndDisplacement src dst offset state

/-- `emit_store_imm32`. -/
def emitStoreImm32 (size : OperandSize) (dst : Reg) (offset imm : Int) (state : JitState) :
    JitState :=
  let state := if size = .s16 then emit1 0x66 state else state
  let state := emitBasicRex (size = .s64) 0 dst state
  let state := emit1 (if size = .s8 then 0xc6 else 0xc7) state
  let state := emitModrmAndDisplacement 0 dst offset state
  match size with
  | .s32 | .s64 => emit4 (u32 imm) state
  | .s16 => emit2 (u32 imm) state
  | .s8 => emit1 (u32 imm) state

/-- `emit_ret`. -/
def emitRet : JitState → JitState := emit1 0xc3

/-- `emit_jmp`. -/
def emitJmp (targetPc : Nat) (state : JitState) : Nat × JitState :=
  emitJumpAddressReloc targetPc (emit1 0xe9 state)

/-- `emit_near_jmp`. -/
def emitNearJmp (targetPc : Nat) (state : JitState) : Nat × JitState :=
  emitNearJumpAddressReloc targetPc (emit1 0xeb state)

/-- `emit_call`. -/
def emitCall (targetPc : Nat) (state : JitState) : Nat × JitState :=
  let state := emit1 0xe8 state
  (state.offset, (emitJumpAddressReloc targetPc state).2)

/-- `emit_pause`. -/
def emitPause (state : JitState) : JitState :=
  emit1 0x90 (emit1 0xf3 state)

/-! ## One instruction of the program -/

/-- `VOLATILE_CTXT`. -/
def volatileCtxt : Reg := r11

/-- `platform_nonvolatile_registers`. -/
def platformNonvolatileRegisters : List Reg := [rbp, rbx, r12, r13, r14, r15]

/-- `platform_parameter_registers`. -/
def platformParameterRegisters : List Reg := [rdi, rsi, rdx, rcx, r8, r9]

/-- `register_map`. -/
def registerMap : List Reg := [rax, rdi, rsi, rdx, r10, r8, rbx, r12, r13, r14, r15]

/-- `map_register`. -/
def mapRegister (r : Nat) : Reg := registerMap.getD (r % 11) 0

/-- `RCX_ALT`. -/
def rcxAlt : Reg := r10

/-- `emit_local_call`. The bytes at either end are `sub r15, [rsp]` and
    `add r15, [rsp]`. -/
def emitLocalCall (targetPc : Nat) (state : JitState) : JitState :=
  let state := emit1 0x24 (emit1 0x3c (emit1 0x2b (emit1 0x4c state)))
  let state := emitPush (mapRegister 6) state
  let state := emitPush (mapRegister 7) state
  let state := emitPush (mapRegister 8) state
  let state := emitPush (mapRegister 9) state
  let state := emitLocalCallAddressReloc targetPc (emit1 0xe8 state)
  let state := emitPop (mapRegister 9) state
  let state := emitPop (mapRegister 8) state
  let state := emitPop (mapRegister 7) state
  let state := emitPop (mapRegister 6) state
  emit1 0x24 (emit1 0x3c (emit1 0x03 (emit1 0x4c state)))

/-- The start of `emit_dispatched_external_helper_call`: is there an external
    dispatcher? -/
def emitLookupDispatcher (state : JitState) : JitState :=
  let state := emitPush volatileCtxt state
  let state := emitPush volatileCtxt state
  let state := emitRipRelativeLoad rax targetPcExternalDispatcher state
  emitCmpImm32 true rax 0 state

/-- The default dispatcher: the address is in the table of helpers. -/
def emitDefaultDispatcher (idx : Nat) (state : JitState) : JitState :=
  let state := emit4 idx (emitAlu32 0xc7 0 rax state)
  let state := emitAlu64Imm8 0xc1 4 rax 3 state
  let state := emitRipRelativeLea r10 targetLoadHelperTable state
  let state := emitAlu64 0x01 r10 rax state
  let state := emitLoad .s64 rax rax 0 state
  emitMov volatileCtxt r9 state

/-- `emit_dispatched_external_helper_call`. The jump from the default
    dispatcher to the call is not noted in a table. -/
def emitDispatchedExternalHelperCall (idx : Nat) (state : JitState) : JitState :=
  let skipDefault := emitJcc 0x85 0 (emitLookupDispatcher state)
  let state := emit1 0xe9 (emitDefaultDispatcher idx skipDefault.2)
  let skipExternalDispatcherSource := state.offset
  let state := emit4byteOffsetPlaceholder state
  let state := emitJumpTarget skipDefault.1 state
  -- An external dispatcher is given the index.
  let state := emitLoadImm r9 idx state
  let state := emitJumpTarget skipExternalDispatcherSource state
  let state := emit1 0xd0 (emit1 0xff state)
  emitPop volatileCtxt (emitPop volatileCtxt state)

/-- Emit under a condition. -/
def emitIf (c : Bool) (f : JitState → JitState) (state : JitState) : JitState :=
  if c then f state else state

/-- `cmove`, with the operand byte given. -/
def emitCmove (modrm : Nat) (state : JitState) : JitState :=
  emit1 modrm (emit1 0x44 (emit1 0x0f (emit1 0x48 state)))

/-- The part of `muldivmod` that replaces a divisor of zero by one, after
    saving the flags that tell. -/
def muldivmodGuard (is64 mod : Bool) (state : JitState) : JitState :=
  let state := emitAlu is64 0x85 rcx rcx state
  let state := emitIf mod (emitPush rax) state
  let state := emit1 0x9c state
  let state := emitLoadImm rdx 1 state
  let state := emitCmove 0xca state
  emitAlu32 0x31 rdx rdx state

/-- The part of `muldivmod` that corrects the result. -/
def muldivmodCorrect (div : Bool) (state : JitState) : JitState :=
  let state := emit1 0x9d state
  if div then emitCmove 0xc1 (emitLoadImm rcx 0 state)
  else emitCmove 0xd1 (emitPop rcx state)

/-- Loading the second operand of `muldivmod` into `rcx`. -/
def muldivmodOperand (operand : Operand) (src : Reg) (imm : Int) : JitState → JitState :=
  match operand with
  | .imm => emitLoadImm rcx imm
  | .reg => emitMov src rcx

/-- `muldivmod`. -/
def muldivmod (is64 : Bool) (op : AluOp) (operand : Operand) (src dst : Reg) (imm : Int)
    (state : JitState) : JitState :=
  let mul : Bool := op = .mul
  let div : Bool := op = .div
  let mod : Bool := op = .mod
  if operand = .imm ∧ imm = 0 then
    if div || mul then emitAlu32 0x31 dst dst state else emitMov dst dst state
  else
    let state := emitIf (dst ≠ rax) (emitPush rax) state
    let state := emitIf (dst ≠ rdx) (emitPush rdx) state
    let state := muldivmodOperand operand src imm state
    let state := emitMov dst rax state
    let state := emitIf (div || mod) (muldivmodGuard is64 mod) state
    let state := emitIf is64 (emitRex true false false false) state
    let state := emitAlu32 0xf7 (if mul then 4 else 6) rcx state
    let state := emitIf (div || mod) (muldivmodCorrect div) state
    let state := emitIf (dst ≠ rdx)
      (fun state => emitPop rdx (emitIf mod (emitMov rdx dst) state)) state
    emitIf (dst ≠ rax)
      (fun state => emitPop rax (emitIf (div || mul) (emitMov rax dst) state)) state

/-- The arithmetic cases of the switch. -/
def emitAluInst (is64 : Bool) (op : AluOp) (operand : Operand) (src dst : Reg) (imm : Int) :
    JitState → JitState :=
  match op, operand with
  | .add, .imm => emitAluImm32 is64 0x81 0 dst imm
  | .add, .reg => emitAlu is64 0x01 src dst
  | .sub, .imm => emitAluImm32 is64 0x81 5 dst imm
  | .sub, .reg => emitAlu is64 0x29 src dst
  | .mul, _ | .div, _ | .mod, _ => muldivmod is64 op operand src dst imm
  | .or, .imm => emitAluImm32 is64 0x81 1 dst imm
  | .or, .reg => emitAlu is64 0x09 src dst
  | .and, .imm => emitAluImm32 is64 0x81 4 dst imm
  | .and, .reg => emitAlu is64 0x21 src dst
  | .lsh, .imm => emitAluImm8 is64 0xc1 4 dst imm
  | .lsh, .reg => fun state => emitAlu is64 0xd3 4 dst (emitMov src rcx state)
  | .rsh, .imm => emitAluImm8 is64 0xc1 5 dst imm
  | .rsh, .reg => fun state => emitAlu is64 0xd3 5 dst (emitMov src rcx state)
  | .neg, _ => emitAlu is64 0xf7 3 dst
  | .xor, .imm => emitAluImm32 is64 0x81 6 dst imm
  | .xor, .reg => emitAlu is64 0x31 src dst
  -- Only the 64-bit form looks at how long the immediate is.
  | .mov, .imm => if is64 then emitLoadImm dst imm else emitAlu32Imm32 0xc7 0 dst imm
  | .mov, .reg => emitMov src dst
  | .arsh, .imm => emitAluImm8 is64 0xc1 7 dst imm
  | .arsh, .reg => fun state => emitAlu is64 0xd3 7 dst (emitMov src rcx state)

/-- The second byte of the conditional jump for a condition. -/
def jccCode : JmpCond → Nat
  | .eq => 0x84
  | .gt => 0x87
  | .ge => 0x83
  | .set => 0x85
  | .ne => 0x85
  | .sgt => 0x8f
  | .sge => 0x8d
  | .lt => 0x82
  | .le => 0x86
  | .slt => 0x8c
  | .sle => 0x8e

/-- The comparison before a conditional jump. -/
def emitCondition (is64 : Bool) (cond : JmpCond) (operand : Operand) (src dst : Reg) (imm : Int) :
    JitState → JitState :=
  match cond, operand with
  | .set, .imm => emitAluImm32 is64 0xf7 0 dst imm
  | .set, .reg => emitAlu is64 0x85 src dst
  | _, .imm => emitCmpImm32 is64 dst imm
  | _, .reg => emitCmp is64 src dst

/-- The `EBPF_OP_LE` case. -/
def emitLe (dst : Reg) (imm : Int) (state : JitState) : JitState :=
  if imm = 16 then emitAlu32Imm32 0x81 4 dst 0xffff state
  else if imm = 32 then emitAlu32Imm32 0x81 4 dst (-1) state
  else state

/-- The `EBPF_OP_BE` case. -/
def emitBe (dst : Reg) (imm : Int) (state : JitState) : JitState :=
  if imm = 16 then emitAlu32Imm32 0x81 4 dst 0xffff (emitAlu32Imm8 0xc1 0 dst 8 (emit1 0x66 state))
  else if imm = 32 ∨ imm = 64 then
    emit1 (0xc8 ||| dst.val % 8) (emit1 0x0f (emitBasicRex (imm = 64) 0 dst state))
  else state

/-- `(uint32_t)(i + offset + 1)`. -/
def targetPc (i : Nat) (offset : Int) : Nat :=
  u32 (i + offset + 1)

/-- The `EBPF_OP_CALL` case. A call of the helper that may unwind is followed
    by a jump out of the program. -/
def emitCallInst (program : ProgramView) (i : Nat) (inst : EbpfInst) (state : JitState) :
    JitState :=
  if inst.src = 0 then
    let state := emitDispatchedExternalHelperCall (u32 inst.imm) (emitMov rcxAlt rcx state)
    if program.unwindStackExtensionIndex = some inst.imm.toNat then
      (emitJcc 0x84 targetPcExit (emitCmpImm32 true (mapRegister 0) 0 state)).2
    else state
  else if inst.src = 1 then emitLocalCall (targetPc i inst.imm) state
  else state

/-- The switch of `translate`. -/
def emitInst (program : ProgramView) (i : Nat) (inst : EbpfInst) (op : Opcode) (state : JitState) :
    JitState :=
  let dst := mapRegister inst.dst
  let src := mapRegister inst.src
  match op with
  | .alu is64 op operand => emitAluInst is64 op operand src dst inst.imm state
  | .le => emitLe dst inst.imm state
  | .be => emitBe dst inst.imm state
  | .ja => (emitJmp (targetPc i inst.offset) state).2
  | .jmp is64 cond operand =>
    (emitJcc (jccCode cond) (targetPc i inst.offset)
      (emitCondition is64 cond operand src dst inst.imm state)).2
  | .call => emitCallInst program i inst state
  | .exit => emitRet (emitAlu64Imm32 0x81 0 rsp 8 state)
  | .ldx size => emitLoad (.ofBytes size) src dst inst.offset state
  | .st size => emitStoreImm32 (.ofBytes size) dst inst.offset inst.imm state
  | .stx size => emitStore (.ofBytes size) src dst inst.offset state
  | .lddw =>
    let next := (program.insts[i + 1]?).elim 0 EbpfInst.imm
    emitLoadImm dst (toSigned 64 (u32 inst.imm ||| u32 next <<< 32)) state

/-- `ubpf_instruction_has_fallthrough`. -/
def hasFallthrough (inst : EbpfInst) : Bool :=
  inst.opcode ≠ 0x95

/-- A local function other than the first starts at `i`. -/
def ProgramView.isLocalFunc (program : ProgramView) (i : Nat) : Bool :=
  program.intFuncs[i]? == some true

/-- `ubpf_stack_usage_for_local_func`, asked where a function starts. -/
def ProgramView.usageAt (program : ProgramView) (i : Nat) : Nat :=
  ((program.stackUsage[i]?).join).getD 0

/-- The code before the first instruction of a function: room on the stack and
    the function's stack usage in it. -/
def emitPrologCode (usage : Nat) (state : JitState) : JitState :=
  let state := emitAlu64Imm32 0x81 5 rsp 8 state
  let state := emit1 0x24 (emit1 0x04 (emit1 0xc7 (emit1 0x48 state)))
  emit4 usage state

/-- The same, and its size is noted the first time. -/
def emitProlog (usage : Nat) (state : JitState) : JitState :=
  let prologStart := state.offset
  let state := emitPrologCode usage state
  if state.bpfFunctionPrologSize = 0 then
    { state with bpfFunctionPrologSize := state.offset - prologStart }
  else state

/-- A function starts at `i`, and the instruction before may fall through into
    it. -/
def ProgramView.fallsInto (program : ProgramView) (i : Nat) : Bool :=
  i ≠ 0 && program.isLocalFunc i && (program.insts[i - 1]?).elim false hasFallthrough

/-- What `translate` does before the switch. Where the previous instruction
    may fall through into a function, it jumps over the prolog. -/
def emitFunctionStart (program : ProgramView) (i : Nat) (state : JitState) : JitState :=
  if program.fallsInto i then
    let fallthroughJump := emitNearJmp 0 state
    emitJumpTarget fallthroughJump.1 (emitProlog (program.usageAt i) fallthroughJump.2)
  else if i = 0 ∨ program.isLocalFunc i then emitProlog (program.usageAt i) state
  else state

/-- One iteration of the loop of `translate`. -/
def translateInst (program : ProgramView) (i : Nat) (inst : EbpfInst) (state : JitState) :
    JitState :=
  let state := emitFunctionStart program i state
  let state := { state with pcLocs := Function.update state.pcLocs i state.offset }
  let state := match Opcode.decode inst.opcode with
    | none => { state with jitStatus := .unknownInstruction }
    | some op => emitInst program i inst op state
  emitIf (inst.opcode % 8 = 4 ∧ inst.opcode / 16 ≠ 0xd)
    (emitTruncateU32 (mapRegister inst.dst)) state

/-- The loop of `translate` from instruction `i` on. `skip` is set over the
    second half of a double-word load. -/
def translateLoop (program : ProgramView) : List EbpfInst → Nat → Bool → JitState → JitState
  | [], _, _, state => state
  | _ :: rest, i, true, state => translateLoop program rest (i + 1) false state
  | inst :: rest, i, false, state =>
    if state.jitStatus ≠ .noError then state
    else
      translateLoop program rest (i + 1) (inst.opcode == 0x18) (translateInst program i inst state)

/-- The start of the entry: the registers of the caller are saved, and `rbp`
    remembers where. -/
def emitSaves (state : JitState) : JitState :=
  let state := platformNonvolatileRegisters.foldl (fun state r => emitPush r state) state
  let state := emitMov rdi volatileCtxt state
  let state := emitAlu64Imm32 0x81 5 rsp 8 state
  emitMov rsp rbp state

/-- The part of the entry that sets up the frame pointer of the program. In
    basic mode the stack is here, otherwise the caller gives it. -/
def emitFramePointer (state : JitState) : JitState :=
  match state.jitMode with
  | .basic => emitAlu64Imm32 0x81 5 rsp ebpfStackSize (emitMov rsp (mapRegister 10) state)
  | .extended => emitAlu64 0x01 rcx (mapRegister 10) (emitMov rdx (mapRegister 10) state)

/-- What `translate` emits before the first instruction. The call goes to the
    instruction after the jump, so that the program's last return comes to
    the jump. -/
def emitEntry (state : JitState) : JitState :=
  let state := emitFramePointer (emitSaves state)
  let state := emit4 5 (emit1 0xe8 state)
  (emitJmp targetPcExit state).2

/-- `emit_retpoline`. The jump in it names an offset where it should name an
    instruction. -/
def emitRetpoline (state : JitState) : JitState :=
  let label1Call := emitCall 0 state
  let captureRetSpec := label1Call.2.offset
  let state := emitPause label1Call.2
  let state := (emitJmp captureRetSpec state).2
  let label1 := state.offset
  let state := emit1 0x24 (emit1 0x04 (emit1 0x89 (emit1 0x48 state)))
  let state := emitRet state
  state.redirect label1Call.1 label1

/-- The addresses the unikernel's own functions have. -/
structure HostAddresses where
  dispatcher : Word
  /-- A helper by its name. -/
  extFunc : Bytes → Word

/-- `vm->ext_funcs[idx]`. -/
def HostAddresses.helper (host : HostAddresses) (program : ProgramView) (idx : Nat) : Word :=
  (program.extFuncs.lookup idx).elim 0 host.extFunc

/-- `emit_helper_table`. -/
def emitHelperTable (host : HostAddresses) (program : ProgramView) (state : JitState) : JitState :=
  (List.range maxExtFuncs).foldl (fun state idx => emit8 (host.helper program idx).toNat state)
    state

/-- What `translate` emits after the last instruction. -/
def emitExit (host : HostAddresses) (program : ProgramView) (state : JitState) : JitState :=
  let state := { state with exitLoc := state.offset }
  let state := emitMov rbp rsp state
  let state := emitAlu64Imm32 0x81 0 rsp 8 state
  let state := platformNonvolatileRegisters.reverse.foldl (fun state r => emitPop r state) state
  let state := emit1 0xc3 state
  let state := emitRetpoline { state with retpolineLoc := state.offset }
  let state := emit8 host.dispatcher.toNat { state with dispatcherLoc := state.offset }
  emitHelperTable host program { state with helperTableLoc := state.offset }

/-- Why there is no native code: an error of the first pass, a near jump that
    is too far, or a failed assertion, after which there is no system
    either. -/
inductive TranslateError where
  | progress (status : JitProgress)
  | patch
  | assertion
deriving DecidableEq, Repr

/-- `translate`. -/
def translate (host : HostAddresses) (program : ProgramView) (size : Nat) (mode : JitMode) :
    Except TranslateError JitState :=
  let state := translateLoop program program.insts 0 false
    (emitEntry (initializeJitState size mode))
  if state.jitStatus ≠ .noError then .error (.progress state.jitStatus)
  else .ok (emitExit host program state)

/-! ## The second pass -/

/-- Where a jump goes. -/
def JitState.jumpTarget (state : JitState) (jump : PatchableRelative) : Nat :=
  if jump.targetOffset ≠ 0 then jump.targetOffset
  else if jump.targetPc = targetPcExit then state.exitLoc
  else if jump.targetPc = targetPcRetpoline then state.retpolineLoc
  else state.pcLocs jump.targetPc

/-- The distance from the end of a field of four bytes. -/
def patchRel32 (buf : Bytes) (offsetLoc : Nat) (target : Int) : Bytes :=
  patchAt buf offsetLoc (toLE 4 (u32 (target - (offsetLoc + 4))))

def resolveJump (state : JitState) (buf : Bytes) (jump : PatchableRelative) :
    Except TranslateError Bytes :=
  if jump.near then
    let rel : Int := state.jumpTarget jump - (jump.offsetLoc + 1)
    if -128 ≤ rel ∧ rel < 128 then .ok (patchAt buf jump.offsetLoc (toLE 1 (u32 rel)))
    else .error .patch
  else .ok (patchRel32 buf jump.offsetLoc (state.jumpTarget jump))

/-- A local call goes to the prolog of the function. -/
def resolveLocalCall (state : JitState) (buf : Bytes) (call : PatchableRelative) :
    Except TranslateError Bytes :=
  if call.targetOffset ≠ 0 ∨ call.targetPc = targetPcExit ∨ call.targetPc = targetPcRetpoline then
    .error .assertion
  else .ok (patchRel32 buf call.offsetLoc
    (state.pcLocs call.targetPc - state.bpfFunctionPrologSize))

/-- Loads and address loads, each of which has one possible target. -/
def resolveTo (known loc : Nat) (buf : Bytes) (entry : PatchableRelative) :
    Except TranslateError Bytes :=
  if entry.targetPc = known then .ok (patchRel32 buf entry.offsetLoc loc) else .error .patch

/-- `resolve_patchable_relatives`. -/
def resolvePatchableRelatives (state : JitState) : Except TranslateError Bytes := do
  let buf ← state.jumps.foldlM (resolveJump state) state.buf
  let buf ← state.localCalls.foldlM (resolveLocalCall state) buf
  let buf ← state.loads.foldlM (resolveTo targetPcExternalDispatcher state.dispatcherLoc) buf
  state.leas.foldlM (resolveTo targetLoadHelperTable state.helperTableLoc) buf

/-- `ubpf_translate_x86_64`: the native code. -/
def ubpfTranslateX86 (host : HostAddresses) (size : Nat) (mode : JitMode) (program : ProgramView) :
    Except TranslateError Bytes := do
  let state ← translate host program size mode
  resolvePatchableRelatives state

/-- The translator that `ubpf_create` puts into a machine here. -/
def translatorX86 (host : HostAddresses) : Nat → JitMode → ProgramView → Option Bytes :=
  fun size mode program => (ubpfTranslateX86 host size mode program).toOption

end UniBPF
