import UniBPF.Theory.NativeProgram

/-!
# Steps of Compiled Code

`Related` ties a state of the interpreter to a machine in compiled code. The
registers of the program are in registers of the processor, its memory is
what the code sees of memory, and its frames are words on the native stack:
for each local call the four registers that are saved, the address to return
to and the stack usage, which is 0 for every function.

The program counter is not part of it. It says where in the code the machine
is, and `Advances` says that the machine comes from the place of one
instruction to the place of the next with the relation kept.

## Main definitions

* `frameWords`: The frames as words on the stack.
* `Related`: A state of the interpreter and a machine.
* `Advances`: The code of an instruction does what the interpreter does.

## Theorems

* `advances_sets`, `advances_store`, `advances_lddw`: Instructions that are
  followed by the next.
* `advances_ja`, `advances_jmp`: Jumps.
-/

namespace UniBPF

open LittleEndian X86 Relocations

/-! ## Registers and operations -/

/-- The registers the program does not have. -/
theorem mapRegister_free (r : Nat) : mapRegister r ≠ rsp ∧ mapRegister r ≠ rcx ∧
    mapRegister r ≠ rbp ∧ mapRegister r ≠ r9 ∧ mapRegister r ≠ r11 := by
  have hall : ∀ i : Fin 11, registerMap.getD i 0 ≠ rsp ∧ registerMap.getD i 0 ≠ rcx ∧
    registerMap.getD i 0 ≠ rbp ∧ registerMap.getD i 0 ≠ r9 ∧ registerMap.getD i 0 ≠ r11 := by decide
  exact hall ⟨r % 11, Nat.mod_lt r (by decide)⟩

theorem mapRegister_inj (r r' : Nat) (hr : r ≤ 10) (hr' : r' ≤ 10)
    (h : mapRegister r = mapRegister r') : r = r' := by
  have hall : ∀ i j : Fin 11, mapRegister i = mapRegister j → i = j := by decide
  exact congrArg Fin.val (hall ⟨r, by omega⟩ ⟨r', by omega⟩ h)

/-- A 32-bit operation, after which the upper half is cleared once more. -/
def Opcode.isAlu32 : Opcode → Bool
  | .alu false _ _ => true
  | _ => false

theorem truncates_iff (n : Nat) (op : Opcode) (hn : n < 256) (h : Opcode.decode n = some op) :
    decide (n % 8 = 4 ∧ n / 16 ≠ 0xd) = op.isAlu32 := by
  have hall : ∀ i : Fin 256, (Opcode.decode i).all fun op =>
    decide (i.val % 8 = 4 ∧ i.val / 16 ≠ 0xd) == op.isAlu32 := by decide +kernel
  have hop := hall ⟨n, hn⟩
  rw [h] at hop
  exact eq_of_beq hop

/-- The size of an access, where the operation is one. -/
def Opcode.access : Opcode → Option Nat
  | .ldx size => some size
  | .st size => some size
  | .stx size => some size
  | _ => none

theorem accessSize_decode (n size : Nat) (op : Opcode) (hn : n < 256)
    (h : Opcode.decode n = some op) (hsize : op.access = some size) : AccessSize size := by
  have hall : ∀ i : Fin 256, (Opcode.decode i).all fun op => op.access.all fun size =>
    decide (size = 1 ∨ size = 2 ∨ size = 4 ∨ size = 8) := by decide +kernel
  have hop := hall ⟨n, hn⟩
  rw [h, Option.all_some, hsize, Option.all_some, decide_eq_true_eq] at hop
  exact hop

theorem opcode_of_exit (n : Nat) (op : Opcode) (hn : n < 256) (h : Opcode.decode n = some op)
    (hexit : n = 0x95) : op = .exit := by
  subst hexit
  exact (Option.some.inj h).symm

/-! ## The relation -/

/-- Where a local call that was made before `pc` returns to: past the call
    itself, with the saved registers still on the stack. -/
def returnAt (program : ProgramView) (mode : JitMode) (pc : Nat) : Nat :=
  instAt program mode (pc - 1) + 16

/-- The frames as words on the stack. At the bottom is the address of the jump
    to the epilogue. -/
def frameWords (t : Site) (program : ProgramView) (mode : JitMode) (frames : Nat → StackFrame) :
    Nat → List Word
  | 0 => [0, t.at (bodyStart mode - 5)]
  | d + 1 => 0 :: t.at (returnAt program mode (frames d).returnAddress) ::
      (frames d).savedRegisters 3 :: (frames d).savedRegisters 2 ::
      (frames d).savedRegisters 1 :: (frames d).savedRegisters 0 ::
      frameWords t program mode frames d

/-- There is a local call just before `pc`. -/
def AfterCall (program : ProgramView) (pc : Nat) : Prop :=
  ∃ i inst, pc = i + 1 ∧ program.insts[i]? = some inst ∧
    Opcode.decode inst.opcode = some .call ∧ inst.src = 1

/-- A state of the interpreter and a machine in compiled code. -/
structure Related (t : Site) (program : ProgramView) (mode : JitMode) (fp : Word) (s : ExecState)
    (a : Abs) : Prop where
  regs : ∀ r ≤ 10, a.cpu.regs (mapRegister r) = s.regs r
  mem : a.cpu.mem = s.mem
  frame : a.cpu.regs rbp = fp
  stack : a.stack = frameWords t program mode s.frames s.frameIndex
  usage : ∀ i, (s.frames i).stackUsage = 0
  depth : s.frameIndex ≤ maxCallDepth
  returns : ∀ d < s.frameIndex, AfterCall program (s.frames d).returnAddress

theorem length_frameWords (t : Site) (program : ProgramView) (mode : JitMode)
    (frames : Nat → StackFrame) (d : Nat) :
    (frameWords t program mode frames d).length = 6 * d + 2 := by
  induction d with
  | zero => rfl
  | succ d ih =>
      simp only [frameWords, List.length_cons, ih]
      omega

theorem frameWords_congr (t : Site) (program : ProgramView) (mode : JitMode)
    (frames frames' : Nat → StackFrame) (d : Nat) (h : ∀ i < d, frames i = frames' i) :
    frameWords t program mode frames d = frameWords t program mode frames' d := by
  induction d with
  | zero => rfl
  | succ d ih =>
      rw [frameWords, frameWords, ih (fun i hi => h i (by omega)), h d (by omega)]

/-- The usage of a function is what the frame has already. -/
theorem enterFunction_eq (program : ProgramView) (s : ExecState) (hprogram : NoUsage program)
    (hs : ∀ i, (s.frames i).stackUsage = 0) : enterFunction program s = s := by
  have hkeep : ∀ usage, usage = 0 →
      s.setFrame s.frameIndex { s.frames s.frameIndex with stackUsage := usage } = s := by
    intro usage husage
    rw [husage, ← hs s.frameIndex, ExecState.setFrame, Function.update_eq_self]
  rw [enterFunction]
  split
  next usage husage =>
    split
    next => exact hkeep usage (hprogram _ usage husage)
    next => rfl
  next => rfl

section Steps

variable {t : Site} {program : ProgramView} {mode : JitMode} {fp : Word} {s : ExecState} {a : Abs}

theorem Related.length (h : Related t program mode fp s a) : a.stack.length ≤ 62 := by
  have hdepth := h.depth
  rw [maxCallDepth] at hdepth
  rw [h.stack, length_frameWords]
  omega

theorem Related.jump (h : Related t program mode fp s a) (offset : Int) :
    Related t program mode fp (s.jump offset) a :=
  ⟨h.regs, h.mem, h.frame, h.stack, h.usage, h.depth, h.returns⟩

theorem Related.flags (h : Related t program mode fp s a) (f : Option Flags) :
    Related t program mode fp s ⟨{ a.cpu with flags := f }, a.stack⟩ :=
  ⟨h.regs, h.mem, h.frame, h.stack, h.usage, h.depth, h.returns⟩

theorem Related.store (h : Related t program mode fp s a) (mem : Memory) :
    Related t program mode fp { s with mem := mem } ⟨{ a.cpu with mem := mem }, a.stack⟩ :=
  ⟨h.regs, rfl, h.frame, h.stack, h.usage, h.depth, h.returns⟩

/-- A register of the program is set. -/
theorem Related.sets (h : Related t program mode fp s a) {a' : Abs} {dst : Nat} {v : Word}
    (hdst : dst ≤ 10) (hsets : Sets true a a' (mapRegister dst) v) :
    Related t program mode fp (s.setReg dst v) a' := by
  have hfree := mapRegister_free dst
  refine ⟨fun r hr => ?_, hsets.mem.trans h.mem, ?_, hsets.stack.trans h.stack, h.usage, h.depth,
    h.returns⟩
  · by_cases hrdst : r = dst
    · subst hrdst
      simp only [ExecState.setReg, Function.update_self]
      exact hsets.value
    · have hne : mapRegister r ≠ mapRegister dst :=
        fun heq => hrdst (mapRegister_inj r dst hr hdst heq)
      simp only [ExecState.setReg, Function.update_of_ne hrdst]
      rw [hsets.other _ hne (mapRegister_free r).2.1]
      exact h.regs r hr
  · rw [hsets.other rbp (fun heq => hfree.2.2.1 heq.symm) (by decide)]
    exact h.frame

/-- The machine comes from the place of an instruction to the place of the
    next. -/
def Advances (t : Site) (program : ProgramView) (mode : JitMode) (fp : Word) (i : Nat)
    (s' : ExecState) (a : Abs) : Prop :=
  ∃ a', Related t program mode fp s' a' ∧
    t.Runs (instAt program mode i) a (instAt program mode s'.pc) a'

/-! ## Instructions that are followed by the next -/

variable {host : HostAddresses} {size : Nat}

/-- Running the whole code of an instruction, up to the next unit. -/
theorem InPlace.unit_done (ht : InPlace t host program size mode) (i : Nat)
    (inst : EbpfInst) (op : Opcode) (hinst : program.insts[i]? = some inst)
    (hop : Opcode.decode inst.opcode = some op) {a' : Abs}
    (hcomp : Computes (instCode program i (instAt program mode i) inst op ++ truncateCode inst)
      a a')
    (hroom : a.stack.length + (instCode program i (instAt program mode i) inst op ++
      truncateCode inst).length ≤ t.ground.room) :
    t.Runs (instAt program mode i) a (unitAt program mode (i + 1)) a' := by
  have hstart := ht.validated.start_of_decodes i inst op hinst hop
  rw [unitAt_succ program mode i inst op hinst hstart hop]
  exact hcomp.runs t (ht.listed_body i inst op hinst hstart hop) hroom

/-- Only an exit does not fall through. -/
theorem InPlace.next (ht : InPlace t host program size mode) (i : Nat) (inst : EbpfInst)
    (op : Opcode) (hinst : program.insts[i]? = some inst)
    (hop : Opcode.decode inst.opcode = some op) (hexit : op ≠ .exit)
    (hnext : IsStart program.insts (i + 1)) (a : Abs) :
    t.Runs (unitAt program mode (i + 1)) a (instAt program mode (i + 1)) a := by
  have hformat := ht.validated.format inst (List.mem_of_getElem? hinst)
  refine ht.falls i inst hnext hinst (fun hop95 => hexit ?_) a
  exact opcode_of_exit inst.opcode op hformat.opcode hop hop95

theorem truncateCode_of (inst : EbpfInst) (op : Opcode) (hn : inst.opcode < 256)
    (hop : Opcode.decode inst.opcode = some op) :
    truncateCode inst = codeIf op.isAlu32 [.binImm .and false (-1) (mapRegister inst.dst)] := by
  rw [truncateCode, truncates_iff inst.opcode op hn hop]

theorem truncateCode_none (inst : EbpfInst) (op : Opcode) (hn : inst.opcode < 256)
    (hop : Opcode.decode inst.opcode = some op) (halu : op.isAlu32 = false) :
    truncateCode inst = [] := by
  rw [truncateCode_of inst op hn hop, halu]
  rfl

/-- An instruction that is followed by the next. -/
theorem InPlace.advances (ht : InPlace t host program size mode)
    (hrel : Related t program mode fp s a) (i : Nat) (inst : EbpfInst) (op : Opcode)
    (hinst : program.insts[i]? = some inst) (hop : Opcode.decode inst.opcode = some op)
    (hexit : op ≠ .exit) (hnext : IsStart program.insts (i + 1)) {s' : ExecState} {a' : Abs}
    (hcomp : Computes (instCode program i (instAt program mode i) inst op ++ truncateCode inst)
      a a')
    (hlen : (instCode program i (instAt program mode i) inst op ++ truncateCode inst).length ≤ 32)
    (hs' : s'.pc = i + 1) (hrel' : Related t program mode fp s' a') :
    Advances t program mode fp i s' a := by
  have hroom := ht.room
  have hstack := hrel.length
  refine ⟨a', hrel', ?_⟩
  rw [hs']
  exact (ht.unit_done i inst op hinst hop hcomp (by omega)).trans
    (ht.next i inst op hinst hop hexit hnext a')

theorem length_codeIf (c : Bool) (es : List Encoded) : (codeIf c es).length ≤ es.length := by
  cases c with
  | true => exact le_refl _
  | false => exact Nat.zero_le _

theorem length_mulDivCode (is64 : Bool) (op : AluOp) (operand : Operand) (src dst : Reg)
    (imm : Int) : (mulDivCode is64 op operand src dst imm).length ≤ 31 := by
  have hguard : ∀ mod, (guardCode is64 mod).length ≤ 6 := by
    intro mod
    cases mod
    all_goals exact Nat.le_of_ble_eq_true rfl
  have hcorrect : ∀ div, (correctCode div).length ≤ 3 := by
    intro div
    cases div
    all_goals exact Nat.le_of_ble_eq_true rfl
  simp only [mulDivCode]
  split
  · split
    all_goals exact Nat.le_of_ble_eq_true rfl
  · simp only [List.length_append, List.length_cons, List.length_nil]
    have h1 := length_codeIf (decide (dst ≠ rax)) [Encoded.push rax]
    have h2 := length_codeIf (decide (dst ≠ rdx)) [Encoded.push rdx]
    have h3 := length_codeIf (decide (op = .div) || decide (op = .mod))
      (guardCode is64 (decide (op = .mod)))
    have h4 := length_codeIf (decide (op = .div) || decide (op = .mod))
      (correctCode (decide (op = .div)))
    have h5 := length_codeIf (decide (dst ≠ rdx))
      (codeIf (decide (op = .mod)) [Encoded.bin .mov true rdx dst] ++ [.pop rdx])
    have h6 := length_codeIf (decide (dst ≠ rax))
      (codeIf (decide (op = .div) || decide (op = .mul)) [Encoded.bin .mov true rax dst] ++
        [.pop rax])
    have h7 := length_codeIf (decide (op = .mod)) [Encoded.bin .mov true rdx dst]
    have h8 := length_codeIf (decide (op = .div) || decide (op = .mul))
      [Encoded.bin .mov true rax dst]
    have h9 := hguard (decide (op = .mod))
    have h10 := hcorrect (decide (op = .div))
    simp only [List.length_append, List.length_cons, List.length_nil] at h1 h2 h5 h6 h7 h8
    omega

theorem length_aluCode (is64 : Bool) (op : AluOp) (operand : Operand) (src dst : Reg) (imm : Int) :
    (aluCode is64 op operand src dst imm).length ≤ 31 := by
  cases op with
  | mul => exact length_mulDivCode is64 .mul operand src dst imm
  | div => exact length_mulDivCode is64 .div operand src dst imm
  | mod => exact length_mulDivCode is64 .mod operand src dst imm
  | neg => exact Nat.le_of_ble_eq_true rfl
  | _ =>
      cases operand
      all_goals cases is64
      all_goals exact Nat.le_of_ble_eq_true rfl

theorem Related.operand (hrel : Related t program mode fp s a) (inst : EbpfInst)
    (hsrc : inst.src ≤ 10) (operand : Operand) :
    operandValue operand a.cpu (mapRegister inst.src) inst.imm = s.operand inst operand := by
  cases operand with
  | imm => rfl
  | reg => exact hrel.regs inst.src hsrc

theorem InPlace.advances_alu (ht : InPlace t host program size mode)
    (hrel : Related t program mode fp s a) (i : Nat) (hs : s.pc = i + 1) (inst : EbpfInst)
    (is64 : Bool) (op : AluOp) (operand : Operand) (hinst : program.insts[i]? = some inst)
    (hop : Opcode.decode inst.opcode = some (.alu is64 op operand))
    (hok : InstOk program.insts i inst (.alu is64 op operand))
    (hnext : IsStart program.insts (i + 1)) :
    Advances t program mode fp i
      (s.setReg inst.dst (alu is64 op (s.regs inst.dst) (s.operand inst operand))) a := by
  have hformat := ht.validated.format inst (List.mem_of_getElem? hinst)
  have hsrc := mapRegister_free inst.src
  have hdst := mapRegister_free inst.dst
  rcases computes_alu is64 op operand (mapRegister inst.src) (mapRegister inst.dst) inst.imm a
    hsrc.1 ⟨hdst.1, hdst.2.1⟩ hformat.imm with ⟨a', hcomp, hsets⟩
  rw [hrel.regs inst.dst hok.dst, hrel.operand inst hok.src] at hsets
  have hcode : instCode program i (instAt program mode i) inst (.alu is64 op operand) ++
      truncateCode inst = aluCode is64 op operand (mapRegister inst.src) (mapRegister inst.dst)
        inst.imm ++ codeIf (!is64) [.binImm .and false (-1) (mapRegister inst.dst)] := by
    rw [truncateCode_of inst _ hformat.opcode hop, instCode]
    cases is64 with
    | true => rfl
    | false => rfl
  have hlen := length_aluCode is64 op operand (mapRegister inst.src) (mapRegister inst.dst) inst.imm
  have htrunc := length_codeIf (!is64) [Encoded.binImm .and false (-1) (mapRegister inst.dst)]
  refine ht.advances hrel i inst _ hinst hop (by simp only [ne_eq, reduceCtorEq,
    not_false_eq_true]) hnext (hcode ▸ hcomp) ?_ hs (hrel.sets hok.dst hsets)
  rw [hcode, List.length_append]
  rw [List.length_singleton] at htrunc
  omega

/-- An operation with code of its own that sets its destination. -/
theorem InPlace.advances_sets (ht : InPlace t host program size mode)
    (hrel : Related t program mode fp s a) (i : Nat) (hs : s.pc = i + 1) (inst : EbpfInst)
    (op : Opcode) (hinst : program.insts[i]? = some inst)
    (hop : Opcode.decode inst.opcode = some op) (halu : op.isAlu32 = false) (hexit : op ≠ .exit)
    (hdst : inst.dst ≤ 10) (hnext : IsStart program.insts (i + 1)) {a' : Abs} {v : Word}
    (hcomp : Computes (instCode program i (instAt program mode i) inst op) a a')
    (hlen : (instCode program i (instAt program mode i) inst op).length ≤ 32)
    (hsets : Sets true a a' (mapRegister inst.dst) v) :
    Advances t program mode fp i (s.setReg inst.dst v) a := by
  have hformat := ht.validated.format inst (List.mem_of_getElem? hinst)
  have htrunc := truncateCode_none inst op hformat.opcode hop halu
  refine ht.advances hrel i inst op hinst hop hexit hnext ?_ ?_ hs (hrel.sets hdst hsets)
  · rw [htrunc, List.append_nil]
    exact hcomp
  · rw [htrunc, List.append_nil]
    exact hlen

theorem InPlace.advances_le (ht : InPlace t host program size mode)
    (hrel : Related t program mode fp s a) (i : Nat) (hs : s.pc = i + 1) (inst : EbpfInst)
    (hinst : program.insts[i]? = some inst) (hop : Opcode.decode inst.opcode = some .le)
    (hok : InstOk program.insts i inst .le) (hnext : IsStart program.insts (i + 1)) :
    Advances t program mode fp i
      (s.setReg inst.dst (byteOrder false inst.imm (s.regs inst.dst))) a := by
  rcases computes_le (mapRegister inst.dst) inst.imm a (mapRegister_free inst.dst).1 hok.checked
    with ⟨a', hcomp, hsets⟩
  rw [hrel.regs inst.dst hok.dst] at hsets
  refine ht.advances_sets hrel i hs inst .le hinst hop rfl (by simp only [ne_eq, reduceCtorEq,
    not_false_eq_true]) hok.dst hnext hcomp ?_ hsets
  simp only [instCode, leCode]
  split
  · exact Nat.le_of_ble_eq_true rfl
  · split
    all_goals exact Nat.le_of_ble_eq_true rfl

theorem InPlace.advances_be (ht : InPlace t host program size mode)
    (hrel : Related t program mode fp s a) (i : Nat) (hs : s.pc = i + 1) (inst : EbpfInst)
    (hinst : program.insts[i]? = some inst) (hop : Opcode.decode inst.opcode = some .be)
    (hok : InstOk program.insts i inst .be) (hnext : IsStart program.insts (i + 1)) :
    Advances t program mode fp i
      (s.setReg inst.dst (byteOrder true inst.imm (s.regs inst.dst))) a := by
  rcases computes_be (mapRegister inst.dst) inst.imm a (mapRegister_free inst.dst).1 hok.checked
    with ⟨a', hcomp, hsets⟩
  rw [hrel.regs inst.dst hok.dst] at hsets
  refine ht.advances_sets hrel i hs inst .be hinst hop rfl (by simp only [ne_eq, reduceCtorEq,
    not_false_eq_true]) hok.dst hnext hcomp ?_ hsets
  simp only [instCode, beCode]
  split
  · exact Nat.le_of_ble_eq_true rfl
  · split
    all_goals exact Nat.le_of_ble_eq_true rfl

theorem InPlace.advances_ldx (ht : InPlace t host program size mode)
    (hrel : Related t program mode fp s a) (i : Nat) (hs : s.pc = i + 1) (inst : EbpfInst)
    (n v : Nat) (hinst : program.insts[i]? = some inst)
    (hop : Opcode.decode inst.opcode = some (.ldx n)) (hok : InstOk program.insts i inst (.ldx n))
    (hnext : IsStart program.insts (i + 1))
    (hload : s.mem.load (s.regs inst.src + BitVec.ofInt 64 inst.offset) n = some v) :
    Advances t program mode fp i (s.setReg inst.dst (BitVec.ofNat 64 v)) a := by
  have hmem := List.mem_of_getElem? hinst
  have hformat := ht.validated.format inst hmem
  have hbase : (mapRegister inst.src).val % 8 ≠ 4 := ht.bases inst hmem _ hop
  rw [← hrel.mem, ← hrel.regs inst.src hok.src] at hload
  rcases computes_load n (mapRegister inst.src) (mapRegister inst.dst) inst.offset a v hbase
    (mapRegister_free inst.src).1 (mapRegister_free inst.dst).1
    (accessSize_decode inst.opcode n _ hformat.opcode hop rfl) hformat.offset hload with
    ⟨a', hcomp, hsets⟩
  have hcode : instCode program i (instAt program mode i) inst (.ldx n) =
      [.load (.ofBytes n) (mapRegister inst.src) (mapRegister inst.dst) inst.offset hbase] :=
    dif_pos hbase
  refine ht.advances_sets hrel i hs inst (.ldx n) hinst hop rfl (by simp only [ne_eq, reduceCtorEq,
    not_false_eq_true]) hok.dst hnext ?_ ?_ hsets
  · rw [hcode]
    exact hcomp
  · rw [hcode]
    exact Nat.le_of_ble_eq_true rfl

/-- A store. -/
theorem InPlace.advances_mem (ht : InPlace t host program size mode)
    (hrel : Related t program mode fp s a) (i : Nat) (hs : s.pc = i + 1) (inst : EbpfInst)
    (op : Opcode) (hinst : program.insts[i]? = some inst)
    (hop : Opcode.decode inst.opcode = some op) (halu : op.isAlu32 = false) (hexit : op ≠ .exit)
    (hnext : IsStart program.insts (i + 1)) {e : Encoded} {mem : Memory}
    (hcode : instCode program i (instAt program mode i) inst op = [e])
    (hcomp : Computes [e] a ⟨{ a.cpu with mem := mem }, a.stack⟩) :
    Advances t program mode fp i { s with mem := mem } a := by
  have hformat := ht.validated.format inst (List.mem_of_getElem? hinst)
  have htrunc := truncateCode_none inst op hformat.opcode hop halu
  refine ht.advances hrel i inst op hinst hop hexit hnext ?_ ?_ hs (hrel.store mem)
  · rw [htrunc, List.append_nil, hcode]
    exact hcomp
  · rw [htrunc, List.append_nil, hcode]
    exact Nat.le_of_ble_eq_true rfl

theorem InPlace.advances_st (ht : InPlace t host program size mode)
    (hrel : Related t program mode fp s a) (i : Nat) (hs : s.pc = i + 1) (inst : EbpfInst)
    (n : Nat) (mem : Memory) (hinst : program.insts[i]? = some inst)
    (hop : Opcode.decode inst.opcode = some (.st n)) (hok : InstOk program.insts i inst (.st n))
    (hnext : IsStart program.insts (i + 1))
    (hstore : s.mem.store (s.regs inst.dst + BitVec.ofInt 64 inst.offset) n
      (BitVec.ofInt 64 inst.imm).toNat = some mem) :
    Advances t program mode fp i { s with mem := mem } a := by
  have hmem := List.mem_of_getElem? hinst
  have hformat := ht.validated.format inst hmem
  have hbase : (mapRegister inst.dst).val % 8 ≠ 4 := ht.bases inst hmem _ hop
  rw [← hrel.mem, ← hrel.regs inst.dst hok.dst] at hstore
  exact ht.advances_mem hrel i hs inst (.st n) hinst hop rfl (by simp only [ne_eq, reduceCtorEq,
    not_false_eq_true]) hnext (dif_pos hbase) (computes_storeImm n (mapRegister inst.dst)
    inst.offset inst.imm a mem hbase (mapRegister_free inst.dst).1
    (accessSize_decode inst.opcode n _ hformat.opcode hop rfl) hformat.offset hformat.imm hstore)

theorem InPlace.advances_stx (ht : InPlace t host program size mode)
    (hrel : Related t program mode fp s a) (i : Nat) (hs : s.pc = i + 1) (inst : EbpfInst)
    (n : Nat) (mem : Memory) (hinst : program.insts[i]? = some inst)
    (hop : Opcode.decode inst.opcode = some (.stx n)) (hok : InstOk program.insts i inst (.stx n))
    (hnext : IsStart program.insts (i + 1))
    (hstore : s.mem.store (s.regs inst.dst + BitVec.ofInt 64 inst.offset) n
      (s.regs inst.src).toNat = some mem) :
    Advances t program mode fp i { s with mem := mem } a := by
  have hmem := List.mem_of_getElem? hinst
  have hformat := ht.validated.format inst hmem
  have hbase : (mapRegister inst.dst).val % 8 ≠ 4 := ht.bases inst hmem _ hop
  rw [← hrel.mem, ← hrel.regs inst.dst hok.dst, ← hrel.regs inst.src hok.src] at hstore
  exact ht.advances_mem hrel i hs inst (.stx n) hinst hop rfl (by simp only [ne_eq, reduceCtorEq,
    not_false_eq_true]) hnext (dif_pos hbase) (computes_store n (mapRegister inst.src)
    (mapRegister inst.dst) inst.offset a mem hbase (mapRegister_free inst.src).1
    (mapRegister_free inst.dst).1 (accessSize_decode inst.opcode n _ hformat.opcode hop rfl)
    hformat.offset hstore)

theorem or_shift_lt (x y : Nat) (hx : x < 2 ^ 32) (hy : y < 2 ^ 32) :
    x ||| y <<< 32 < 2 ^ 64 := by
  refine Nat.or_lt_two_pow (by omega) ?_
  rw [Nat.shiftLeft_eq]
  omega

/-- A load of a constant, which is two instructions long. -/
theorem InPlace.advances_lddw (ht : InPlace t host program size mode)
    (hrel : Related t program mode fp s a) (i : Nat) (hs : s.pc = i + 1) (inst second : EbpfInst)
    (hinst : program.insts[i]? = some inst) (hop : Opcode.decode inst.opcode = some .lddw)
    (hok : InstOk program.insts i inst .lddw) (hsecond : program.insts[i + 1]? = some second)
    (hnext : IsStart program.insts (i + 2)) :
    Advances t program mode fp i ((s.setReg inst.dst
      (BitVec.ofNat 64 (u32 inst.imm ||| u32 second.imm <<< 32))).jump 1) a := by
  have hroom := ht.room
  have hstack := hrel.length
  have hfew := ht.validated.few
  have hformat := ht.validated.format inst (List.mem_of_getElem? hinst)
  have htrunc := truncateCode_none inst .lddw hformat.opcode hop rfl
  have hstart := ht.validated.start_of_decodes i inst .lddw hinst hop
  rcases computes_constant (mapRegister inst.dst) _ a (mapRegister_free inst.dst).1
    (or_shift_lt _ _ (u32_lt inst.imm) (u32_lt second.imm)) with ⟨a', hcomp, hsets⟩
  have hcode : instCode program i (instAt program mode i) inst .lddw ++ truncateCode inst =
      [.loadImm (mapRegister inst.dst) (toSigned 64 (u32 inst.imm ||| u32 second.imm <<< 32))] := by
    rw [htrunc, List.append_nil, instCode, hsecond]
    rfl
  have hopcode : inst.opcode = 0x18 := (decode_lddw _ _ hformat.opcode hop).mpr rfl
  have hskip : skipAfter (program.insts.take (i + 1)) false = true := by
    rw [skipAfter_take program.insts i inst hinst, hstart.2, hopcode]
    rfl
  have hzero := ht.validated.second_half (i + 1) second hsecond hskip
  have hpc : ((s.setReg inst.dst (BitVec.ofNat 64 (u32 inst.imm ||| u32 second.imm <<< 32))).jump
      1).pc = i + 2 := by
    have hlt := hnext.1
    simp only [maxInsts] at hfew
    simp only [ExecState.jump, ExecState.setReg, hs]
    omega
  have hsame : unitAt program mode (i + 1 + 1) = unitAt program mode (i + 1) :=
    unitLoc_second program (bodyStart mode) (i + 1) second hsecond hskip
  have hrun := ht.unit_done i inst .lddw hinst hop (hcode ▸ hcomp) (by
    rw [hcode, List.length_singleton]
    omega)
  rw [← hsame] at hrun
  refine ⟨a', (hrel.sets hok.dst hsets).jump 1, ?_⟩
  rw [hpc]
  refine hrun.trans (ht.falls (i + 1) second hnext hsecond ?_ a')
  rw [hzero]
  exact Nat.succ_ne_zero 148 |>.symm

/-! ## Jumps -/

/-- The translator and the interpreter mean the same place. -/
theorem jump_target (i n : Nat) (offset : Int) (hn : n < maxInsts)
    (h : 0 ≤ (i : Int) + 1 + offset ∧ (i : Int) + 1 + offset < n) :
    targetPc i offset = ((i : Int) + 1 + offset).toNat ∧
      ((((i + 1 : Nat) : Int) + offset) % 2 ^ 16).toNat = ((i : Int) + 1 + offset).toNat := by
  simp only [maxInsts] at hn
  rw [targetPc, u32]
  push_cast
  constructor
  all_goals omega

theorem InPlace.advances_ja (ht : InPlace t host program size mode)
    (hrel : Related t program mode fp s a) (i : Nat) (hs : s.pc = i + 1) (inst : EbpfInst)
    (hinst : program.insts[i]? = some inst) (hop : Opcode.decode inst.opcode = some .ja)
    (hok : InstOk program.insts i inst .ja)
    (hnext : IsStart program.insts (s.jump inst.offset).pc)
    (hclash : (s.jump inst.offset).pc ≠ targetPcRetpoline) :
    Advances t program mode fp i (s.jump inst.offset) a := by
  have hstart := ht.validated.start_of_decodes i inst .ja hinst hop
  have hlist := ht.listed_body i inst .ja hinst hstart hop
  have hshort := ht.short
  have hplace := ht.instAt_le _ hnext
  have hend := hlist.append.1.bound (ht.instAt_le i hstart)
  rcases jump_target i program.insts.length inst.offset ht.validated.few
    (JumpOk.bounds hok.checked) with ⟨htarget, hpc⟩
  have hsame : (s.jump inst.offset).pc = targetPc i inst.offset := by
    rw [htarget, ← hpc, ExecState.jump, hs]
  have hdest := ht.jumps _ hnext hclash
  rw [hsame] at hdest hplace
  refine ⟨a, hrel.jump inst.offset, ?_⟩
  rw [hsame]
  have hlen : codeLength [Encoded.jmp (targetPc i inst.offset) 0] = 5 := rfl
  rw [instCode, hlen] at hend
  exact Site.Runs.jmp t a (targetPc i inst.offset) 0 hlist.1 hdest (by omega) (by omega)

theorem InPlace.advances_jmp (ht : InPlace t host program size mode)
    (hrel : Related t program mode fp s a) (i : Nat) (hs : s.pc = i + 1) (inst : EbpfInst)
    (is64 : Bool) (cond : JmpCond) (operand : Operand) (hinst : program.insts[i]? = some inst)
    (hop : Opcode.decode inst.opcode = some (.jmp is64 cond operand))
    (hok : InstOk program.insts i inst (.jmp is64 cond operand)) (s' : ExecState)
    (hs' : s' = if jumpTaken is64 cond (s.regs inst.dst) (s.operand inst operand) then
      s.jump inst.offset else s)
    (hnext : IsStart program.insts s'.pc)
    (hclash : (s.jump inst.offset).pc ≠ targetPcRetpoline) :
    Advances t program mode fp i s' a := by
  have hroom := ht.room
  have hstack := hrel.length
  have hshort := ht.short
  have hformat := ht.validated.format inst (List.mem_of_getElem? hinst)
  have hstart := ht.validated.start_of_decodes i inst _ hinst hop
  have hlist := (ht.listed_body i inst _ hinst hstart hop).append.1
  have hend := hlist.bound (ht.instAt_le i hstart)
  have htrunc := truncateCode_none inst _ hformat.opcode hop rfl
  have hcode : instCode program i (instAt program mode i) inst (.jmp is64 cond operand) =
    [compareCode is64 cond operand (mapRegister inst.src) (mapRegister inst.dst) inst.imm] ++
      [.jcc (condOfJmp cond) (targetPc i inst.offset) 0] := rfl
  rw [hcode] at hlist
  rcases hlist.append with ⟨hcompare, hjcc⟩
  -- The comparison leaves the flags, the jump looks at them.
  have hcomp := computes_compare is64 cond operand (mapRegister inst.src) (mapRegister inst.dst)
    inst.imm a (mapRegister_free inst.src).1 (mapRegister_free inst.dst).1 hformat.imm
  rw [hrel.regs inst.dst hok.dst, hrel.operand inst hok.src] at hcomp
  have hfirst := hcomp.runs t hcompare (by rw [List.length_singleton]; omega)
  generalize hflags : jumpFlags is64 cond (s.regs inst.dst) (s.operand inst operand) = f at hfirst
  have hholds := holds_jump is64 cond (s.regs inst.dst) (s.operand inst operand)
  rw [hflags] at hholds
  have hsix : codeLength [Encoded.jcc (condOfJmp cond) (targetPc i inst.offset) 0] = 6 := rfl
  rw [hcode, codeLength_append, hsix] at hend
  rcases jump_target i program.insts.length inst.offset ht.validated.few
    (JumpOk.bounds hok.checked) with ⟨htarget, hpc⟩
  have hsame : (s.jump inst.offset).pc = targetPc i inst.offset := by
    rw [htarget, ← hpc, ExecState.jump, hs]
  -- The native jump is taken when the interpreter takes its own.
  cases htaken : jumpTaken is64 cond (s.regs inst.dst) (s.operand inst operand) with
  | true =>
      rw [htaken, if_pos rfl] at hs'
      subst hs'
      have hplace := ht.instAt_le _ hnext
      have hdest := ht.jumps _ hnext hclash
      rw [hsame] at hdest hplace
      refine ⟨_, (hrel.flags (some f)).jump inst.offset, hfirst.trans ?_⟩
      have hjump := Site.Runs.jcc t ⟨{ a.cpu with flags := some f }, a.stack⟩ (condOfJmp cond)
        (targetPc i inst.offset) 0 f hjcc.1 hdest (by omega) (by omega) rfl
      rw [hholds, htaken, if_pos rfl] at hjump
      rw [hsame]
      exact hjump
  | false =>
      rw [htaken, if_neg Bool.false_ne_true] at hs'
      subst hs'
      rw [hs] at hnext
      refine ⟨_, hrel.flags (some f), hfirst.trans ?_⟩
      have hskip := Site.Runs.jccSkip t ⟨{ a.cpu with flags := some f }, a.stack⟩ (condOfJmp cond)
        (targetPc i inst.offset) 0 f hjcc.1 rfl (hholds.trans htaken)
      have hunit := unitAt_succ program mode i inst _ hinst hstart hop
      rw [htrunc, List.append_nil, hcode, codeLength_append, hsix, ← Nat.add_assoc] at hunit
      rw [← hunit] at hskip
      rw [hs]
      exact hskip.trans (ht.next i inst _ hinst hop (by simp only [ne_eq, reduceCtorEq,
        not_false_eq_true]) hnext _)

end Steps

end UniBPF
