import UniBPF.Core.Inst
import UniBPF.Lib.Heap

/-!
# The uBPF Virtual Machine

The `struct ubpf_vm` of `ubpf_int.h` and the part of `ubpf_vm.c` that puts a
program into it: `validate`, `ubpf_load` and the stack usage table they
share. Running the program and compiling it are in `Core.Jit` and above.

A machine outlives the programs it runs. `ubpf_load` fills the instruction
store and `int_funcs` anew, while the stack usage table is only ever added
to: `validate` marks every call target it sees, before it is known whether
the program will be accepted, and nothing clears the marks again. That is why
validation threads the machine through and hands it back on failure too.

Instructions are kept scrambled, each word xored with the address of the
store and a secret, and `ubpfFetchInstruction` undoes it. `Vm.view` is what a
program looks like to whoever runs it: the decoded instructions, the local
functions, the stack usage where a function starts, and the helpers.

An allocation is taken to succeed. The dispatcher of external calls is never
registered here, so only the validation side of it is kept.

## Main definitions

* `LoadError`: The ways a program is rejected.
* `Vm`: The machine.
* `ubpfCalculateStackUsageForLocalFunc`, `ubpfStackUsageForLocalFunc`: The
  stack usage table.
* `validate`: The checks on a program's instructions.
* `ubpfStoreInstruction`, `ubpfFetchInstruction`: The scrambled store.
* `ubpfLoad`: Loading a program.
* `ProgramView`, `Vm.view`: A loaded program as its runner sees it.
* `ProgramView.lddw`: What a double-word load loads.
* `ubpfLookupRegisteredFunction`: Finding a helper by name.
-/

namespace UniBPF

open LittleEndian

/-- Why `ubpf_load_elf_ex` or `ubpf_load` rejected a program, one constructor
    per error message. -/
inductive LoadError where
  -- ubpf_load
  | alreadyLoaded
  | codeLenNotMultiple
  -- validate
  | tooManyInstructions
  | improperStackUse
  | invalidEndianImmediate
  | invalidLddwSource
  | incompleteLddw
  | infiniteLoop
  | jumpOutOfBounds
  | jumpToMiddleOfLddw
  | invalidCallImmediate
  | callToNonexistentFunction
  | callOutOfBounds
  | callByBtfId
  | invalidCallType
  | unknownOpcode
  | invalidSourceRegister
  | invalidDestinationRegister
  -- ubpf_load_elf_ex
  | notEnoughData
  | wrongMagic
  | wrongClass
  | wrongByteOrder
  | wrongVersion
  | wrongOsAbi
  | wrongType
  | wrongMachine
  | tooManySections
  | badSectionHeader
  | badSection
  | noStringTable
  | noSymbolTable
  | badFunctionName
  | badFunctionSection
  | nonExecutableSection
  | mainNotFound
  | badSymbolTableIndex
  | badRelocationSymbol
  | badRelocationName
  | relocationOutsideFunctions
  | badRelocationOffset
  | badRelocationSection
  | badRelocationSectionType
  | badRelocationSize
  | badRelocationInstruction
  | unknownCallTarget
  | unknownHelper
deriving DecidableEq, Repr

/-- `struct ubpf_stack_usage`. -/
structure StackUsage where
  calculated : Bool
  usage : Nat
deriving DecidableEq, Repr

/-- The memory behind `vm->insts`: where it is and the scrambled words. -/
structure InstStore where
  base : Addr
  words : List Nat
deriving DecidableEq, Repr

/-- `enum JitMode`. -/
inductive JitMode where
  | extended
  | basic
deriving DecidableEq, Repr

/-- `struct ubpf_jit_result`, as far as `ubpf_compile_ex` reads it. -/
structure JitResult where
  success : Bool
  jitMode : JitMode
deriving DecidableEq, Repr

/-- `UBPF_MAX_INSTS`. -/
def maxInsts : Nat := 65536

/-- `UBPF_EBPF_STACK_SIZE`. -/
def ebpfStackSize : Nat := 512

/-- `MAX_EXT_FUNCS`. -/
def maxExtFuncs : Nat := 64

/-- `struct ubpf_vm`. `extFuncs` lists the registered helpers with their
    index, the latest registration first; a null pointer is `none`. -/
structure Vm where
  insts : Option InstStore
  numInsts : Nat
  jitted : Option Addr
  jittedSize : Nat
  jitterBufferSize : Nat
  jittedResult : JitResult
  extFuncs : List (Nat × Bytes)
  intFuncs : List Bool
  localFuncStackUsage : Nat → StackUsage
  stackUsageCalculator : Option (Nat → Nat)
  dispatcherValidate : Option (Nat → Bool)
  unwindStackExtensionIndex : Option Nat
  pointerSecret : Nat

/-- `ubpf_create`: everything zeroed but the defaults. -/
def ubpfCreate : Vm where
  insts := none
  numInsts := 0
  jitted := none
  jittedSize := 0
  jitterBufferSize := 65536
  jittedResult := ⟨false, .extended⟩
  extFuncs := []
  intFuncs := []
  localFuncStackUsage := fun _ => ⟨false, 0⟩
  stackUsageCalculator := none
  dispatcherValidate := none
  unwindStackExtensionIndex := none
  pointerSecret := 0

/-- `ubpf_register` on a machine that holds no compiled code. -/
def ubpfRegister (vm : Vm) (idx : Nat) (name : Bytes) : Vm :=
  if maxExtFuncs ≤ idx then vm
  else { vm with extFuncs := (idx, name) :: vm.extFuncs }

/-- `ubpf_lookup_registered_function`: the lowest index with the name. -/
def ubpfLookupRegisteredFunction (vm : Vm) (name : Bytes) : Option Nat :=
  (List.range maxExtFuncs).find? (fun i => vm.extFuncs.lookup i == some name)

/-- `ubpf_calculate_stack_usage_for_local_func`. The entry is marked as
    calculated whether or not there is a calculator to ask. -/
def ubpfCalculateStackUsageForLocalFunc (vm : Vm) (pc : Nat) : Option LoadError × Vm :=
  let entry := vm.localFuncStackUsage pc
  -- With nobody to ask, the entry keeps the usage it had.
  let usage := match vm.stackUsageCalculator with
    | some calculator => if entry.calculated then entry.usage else calculator pc % 2 ^ 16
    | none => entry.usage
  let vm' := { vm with
    localFuncStackUsage := Function.update vm.localFuncStackUsage pc ⟨true, usage⟩ }
  if usage % 16 ≠ 0 then (some .improperStackUse, vm') else (none, vm')

/-- `ubpf_stack_usage_for_local_func`. -/
def ubpfStackUsageForLocalFunc (vm : Vm) (pc : Nat) : Nat :=
  if (vm.localFuncStackUsage pc).calculated then (vm.localFuncStackUsage pc).usage
  else ebpfStackSize

/-- An external call is to a helper that exists. -/
def externalExists (vm : Vm) (idx : Nat) : Bool :=
  match vm.dispatcherValidate with
  | some check => check idx
  | none => (vm.extFuncs.lookup idx).isSome

/-- The jump cases of `validate`. -/
def validateJump (insts : List EbpfInst) (i : Nat) (inst : EbpfInst) : Option LoadError :=
  let newPc : Int := i + 1 + inst.offset
  -- The first check is on the offset, so it also catches a jump that would be in bounds.
  if inst.offset = -1 then some .infiniteLoop
  else if newPc < 0 ∨ (insts.length : Int) ≤ newPc then some .jumpOutOfBounds
  else if (insts[newPc.toNat]?).map EbpfInst.opcode = some 0 then some .jumpToMiddleOfLddw
  else none

/-- The call case of `validate`. -/
def validateCall (vm : Vm) (numInsts i : Nat) (inst : EbpfInst) : Option LoadError × Vm :=
  -- The source register says what kind of call it is.
  if inst.src = 0 then
    if inst.imm < 0 ∨ (maxExtFuncs : Int) ≤ inst.imm then (some .invalidCallImmediate, vm)
    else if externalExists vm inst.imm.toNat then (none, vm)
    else (some .callToNonexistentFunction, vm)
  else if inst.src = 1 then
    let callTarget : Int := i + (inst.imm + 1)
    if callTarget < 0 ∨ (numInsts : Int) ≤ callTarget then (some .callOutOfBounds, vm)
    else ubpfCalculateStackUsageForLocalFunc vm callTarget.toNat
  else if inst.src = 2 then (some .callByBtfId, vm)
  else (some .invalidCallType, vm)

/-- The switch of `validate` on the opcode. -/
def validateOp (vm : Vm) (insts : List EbpfInst) (i : Nat) (inst : EbpfInst) (op : Opcode) :
    Option LoadError × Vm :=
  match op with
  | .le | .be =>
    if inst.imm ≠ 16 ∧ inst.imm ≠ 32 ∧ inst.imm ≠ 64 then (some .invalidEndianImmediate, vm)
    else (none, vm)
  | .lddw =>
    if inst.src ≠ 0 then (some .invalidLddwSource, vm)
    else if (insts[i + 1]?).map EbpfInst.opcode ≠ some 0 then (some .incompleteLddw, vm)
    else (none, vm)
  | .ja | .jmp .. => (validateJump insts i inst, vm)
  | .call => validateCall vm insts.length i inst
  | .alu .. | .ldx _ | .st _ | .stx _ | .exit => (none, vm)

/-- The opcodes for which `validate` sets its `store` flag, which lets the
    frame pointer be a destination. -/
def Opcode.isStore : Opcode → Bool
  | .alu true .mov _ => true
  | .st _ => true
  | .stx _ => true
  | _ => false

/-- One iteration of the loop of `validate`. -/
def validateInst (vm : Vm) (insts : List EbpfInst) (i : Nat) (inst : EbpfInst) :
    Option LoadError × Vm :=
  match Opcode.decode inst.opcode with
  | none => (some .unknownOpcode, vm)
  | some op =>
    match validateOp vm insts i inst op with
    | (some e, vm') => (some e, vm')
    | (none, vm') =>
      -- A call has marked its target before its registers are looked at.
      if 10 < inst.src then (some .invalidSourceRegister, vm')
      else if 9 < inst.dst ∧ ¬ (op.isStore = true ∧ inst.dst = 10) then
        (some .invalidDestinationRegister, vm')
      else (none, vm')

/-- The loop of `validate` from instruction `i` on. `skip` is set over the
    second half of a double-word load. -/
def validateLoop (insts : List EbpfInst) : Vm → List EbpfInst → Nat → Bool → Option LoadError × Vm
  | vm, [], _, _ => (none, vm)
  | vm, _ :: rest, i, true => validateLoop insts vm rest (i + 1) false
  | vm, inst :: rest, i, false =>
    match validateInst vm insts i inst with
    | (some e, vm') => (some e, vm')
    | (none, vm') => validateLoop insts vm' rest (i + 1) (inst.opcode == 0x18)

/-- `validate`. -/
def validate (vm : Vm) (insts : List EbpfInst) : Option LoadError × Vm :=
  if maxInsts ≤ insts.length then (some .tooManyInstructions, vm)
  else match ubpfCalculateStackUsageForLocalFunc vm 0 with
    | (some e, vm') => (some e, vm')
    | (none, vm') => validateLoop insts vm' insts 0 false

/-- `ubpf_store_instruction`: the word as it is kept. -/
def ubpfStoreInstruction (base secret word : Nat) : Nat :=
  word ^^^ base ^^^ secret

/-- `ubpf_fetch_instruction`, on the kept word. -/
def ubpfFetchInstruction (base secret kept : Nat) : EbpfInst :=
  EbpfInst.ofWord (kept ^^^ base ^^^ secret)

/-- Where a local call at `i` goes. -/
def localCallTarget (i : Nat) (inst : EbpfInst) : Option Nat :=
  if inst.opcode = 0x85 ∧ inst.src = 1 then some ((i + inst.imm + 1) % 2 ^ 32).toNat else none

/-- The loop of `ubpf_load` that marks the targets of local calls. -/
def markLocalCalls : List Bool → List EbpfInst → Nat → List Bool
  | funcs, [], _ => funcs
  | funcs, inst :: rest, i =>
    match localCallTarget i inst with
    | some target => markLocalCalls (funcs.set target true) rest (i + 1)
    | none => markLocalCalls funcs rest (i + 1)

/-- `ubpf_load`: the error, if any, and the machine afterwards. `base` is the
    address the instruction store is allocated at. -/
def ubpfLoad (vm : Vm) (base : Addr) (code : Bytes) : Option LoadError × Vm :=
  if vm.insts.isSome then (some .alreadyLoaded, vm)
  else if code.length % 8 ≠ 0 then (some .codeLenNotMultiple, vm)
  else
    let insts := (instWords code).map EbpfInst.ofWord
    match validate vm insts with
    | (some e, vm') => (some e, vm')
    | (none, vm') =>
      -- The local functions are allocated anew, the stack usage table is not.
      (none, { vm' with
        insts := some
          { base := base
            words := (instWords code).map (ubpfStoreInstruction base vm'.pointerSecret) }
        numInsts := insts.length
        intFuncs := markLocalCalls (List.replicate insts.length false) insts 0 })

/-- A loaded program as its runner sees it. The interpreter and the compiler
    ask for the stack usage only where a function starts. -/
structure ProgramView where
  insts : List EbpfInst
  numInsts : Nat
  intFuncs : List Bool
  stackUsage : List (Option Nat)
  extFuncs : List (Nat × Bytes)
  unwindStackExtensionIndex : Option Nat
deriving DecidableEq, Repr

/-- A function starts at `pc`. -/
def Vm.startsFunction (vm : Vm) (pc : Nat) : Bool :=
  pc == 0 || vm.intFuncs[pc]? == some true

/-- The program the machine holds, if it holds one. -/
def Vm.view (vm : Vm) : Option ProgramView :=
  vm.insts.map fun store =>
    { insts := store.words.map (ubpfFetchInstruction store.base vm.pointerSecret)
      numInsts := vm.numInsts
      intFuncs := vm.intFuncs
      stackUsage := (List.range vm.numInsts).map fun pc =>
        if vm.startsFunction pc then some (ubpfStackUsageForLocalFunc vm pc) else none
      extFuncs := vm.extFuncs
      unwindStackExtensionIndex := vm.unwindStackExtensionIndex }

/-- `u32`. -/
def u32 (x : Int) : Nat :=
  (x % 2 ^ 32).toNat

/-- The `EBPF_OP_LDDW` case of `ubpf_exec_ex`: what the load at `pc` puts into
    its register. -/
def ProgramView.lddw (program : ProgramView) (pc : Nat) : Option Nat :=
  match program.insts[pc]?, program.insts[pc + 1]? with
  | some inst, some next =>
    if inst.opcode = 0x18 then some (u32 inst.imm ||| u32 next.imm <<< 32) else none
  | _, _ => none

end UniBPF
