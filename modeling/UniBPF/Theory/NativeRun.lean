import UniBPF.Theory.NativeHelpers

/-!
# Runs of Compiled Code

The compiled program does what the interpreter does, instruction by
instruction. Two things keep them from doing the same in general, and both
are in the statements.

A helper leaves `r1` to `r5` as they were under the interpreter, and
scratches them under the compiled code. `Ends` is about all runs that differ
from the interpreter's in what these registers hold after a call: each of
them returns the value. A program that was made for the calling convention
does not look at them.

A jump to instruction 257 goes to the retpoline. `AvoidsRetpoline` is that
there is none.

## Main definitions

* `afterStep`, `Ends`: All runs of a program end alike.
* `Goes`, `GoesOn`: A run of so many instructions, and that there is no other.
* `AvoidsRetpoline`: No jump names the number of the retpoline.

## Theorems

* `InPlace.step_running`, `InPlace.step_returned`: One instruction.
* `InPlace.run`: A whole run.
* `InPlace.follows`: A run as far as it goes.
* `Ends.returns`: The interpreter's own run is one of them.
-/

namespace UniBPF

open LittleEndian X86 Relocations

/-! ## Runs that end alike -/

/-- The instruction is a call of a helper. -/
def callsHelper (program : ProgramView) (s : ExecState) : Bool :=
  match program.insts[s.pc]? with
  | some inst => inst.opcode == 0x85 && inst.src == 0
  | none => false

/-- The state after an instruction, with other values in the registers a
    helper may change. -/
def afterStep (program : ProgramView) (s s' : ExecState) (v : Nat → Word) : ExecState :=
  if callsHelper program s then s'.scratch v else s'

/-- The memory a run leaves that ends with the instruction. -/
def finalMemory (program : ProgramView) (ext : Externals) (s : ExecState) : Memory :=
  match program.insts[s.pc]? with
  | some inst =>
    if inst.opcode = 0x85 then
      (ext inst.imm.toNat (fun i => s.regs (1 + i)) s.mem).elim s.mem Prod.snd
    else s.mem
  | none => s.mem

/-- Every run from the state returns the value and leaves the memory, whatever
    helpers do to the registers they may change. -/
inductive Ends (program : ProgramView) (ext : Externals) : ExecState → Word → Memory → Prop where
  | returned (s : ExecState) (v : Word) (h : execStep program ext s = .returned v) :
      Ends program ext s v (finalMemory program ext s)
  | running (s s' : ExecState) (v : Word) (mem : Memory)
      (h : execStep program ext s = .running s')
      (hrest : ∀ w, Ends program ext (afterStep program s s' w) v mem) : Ends program ext s v mem

/-- A run of so many instructions, whatever helpers do to the registers they
    may change. -/
inductive Goes (program : ProgramView) (ext : Externals) : Nat → ExecState → ExecState → Prop where
  | stop (s : ExecState) : Goes program ext 0 s s
  | next (n : Nat) (s s' s'' : ExecState) (w : Nat → Word)
      (h : execStep program ext s = .running s')
      (hrest : Goes program ext n (afterStep program s s' w) s'') : Goes program ext (n + 1) s s''

/-- Every run goes on for so many instructions. -/
def GoesOn (program : ProgramView) (ext : Externals) : Nat → ExecState → Prop
  | 0, s => IsStart program.insts s.pc
  | n + 1, s => ∃ s', execStep program ext s = .running s' ∧
      ∀ w, GoesOn program ext n (afterStep program s s' w)

/-- A jump of either kind. -/
def Opcode.isJump : Opcode → Bool
  | .ja => true
  | .jmp .. => true
  | _ => false

/-- No jump names the number of the retpoline. -/
def AvoidsRetpoline (program : ProgramView) : Prop :=
  ∀ (i : Nat) (inst : EbpfInst) (op : Opcode), program.insts[i]? = some inst →
    Opcode.decode inst.opcode = some op →
    op.isJump = true → (i : Int) + 1 + inst.offset ≠ targetPcRetpoline

theorem execStep_returned (program : ProgramView) (ext : Externals) (s : ExecState) (v : Word)
    (h : execStep program ext s = .returned v) :
    ∃ inst op, s.pc < program.numInsts ∧ program.insts[s.pc]? = some inst ∧
      Opcode.decode inst.opcode = some op ∧
      execInst program ext ((enterFunction program s).jump 1) inst op = .returned v := by
  unfold execStep at h
  split at h
  · exact absurd h (by simp only [reduceCtorEq, not_false_eq_true])
  · rename_i hpc
    split at h
    · exact absurd h (by simp only [reduceCtorEq, not_false_eq_true])
    · rename_i inst hinst
      split at h
      · exact absurd h (by simp only [reduceCtorEq, not_false_eq_true])
      · rename_i op hop
        exact ⟨inst, op, by omega, hinst, hop, h⟩

/-- A state from which runs end is at an instruction that has an operation. -/
theorem Ends.start {program : ProgramView} {ext : Externals} {s : ExecState} {v : Word}
    {mem : Memory} (h : Ends program ext s v mem) (hprogram : Validated program) :
    IsStart program.insts s.pc := by
  cases h with
  | returned _ _ h =>
      rcases execStep_returned program ext s v h with ⟨inst, op, -, hinst, hop, -⟩
      exact hprogram.start_of_decodes s.pc inst op hinst hop
  | running _ s' _ _ h hrest =>
      rcases execStep_running program ext s s' h with ⟨inst, op, -, hinst, hop, -⟩
      exact hprogram.start_of_decodes s.pc inst op hinst hop

theorem afterStep_pc (program : ProgramView) (s s' : ExecState) (v : Nat → Word) :
    (afterStep program s s' v).pc = s'.pc := by
  rw [afterStep]
  split
  next => rfl
  next => rfl

/-- The interpreter's own run is one of them. -/
theorem Ends.returns {program : ProgramView} {ext : Externals} {s : ExecState} {v : Word}
    {mem : Memory} (h : Ends program ext s v mem) : ∃ n, execFor program ext n s = .returned v := by
  induction h with
  | returned s v h => exact ⟨1, by simp only [execFor, h]⟩
  | running s s' v mem h hrest ih =>
      rcases ih s'.regs with ⟨n, hn⟩
      have hsame : afterStep program s s' s'.regs = s' := by
        rw [afterStep]
        split
        next => simp only [ExecState.scratch, ite_self]
        next => rfl
      rw [hsame] at hn
      exact ⟨n + 1, by simp only [execFor, h, hn]⟩

section Runs

variable {t : Site} {program : ProgramView} {mode : JitMode} {fp : Word} {s : ExecState} {a : Abs}
  {host : HostAddresses} {size : Nat} {ext : Externals}

/-- The program counter is past the instruction. -/
theorem jump_one (h : Validated program) (hpc : s.pc < program.numInsts) :
    (s.jump 1).pc = s.pc + 1 := by
  have hfew := h.few
  rw [h.count] at hpc
  simp only [maxInsts] at hfew
  simp only [ExecState.jump]
  omega

/-! ## One instruction -/

/-- The part of a call of a helper that both outcomes have in common. -/
theorem InPlace.serves (ht : InPlace t host program size mode)
    (hserves : ServesHelpers t host program ext) (hdispatcher : host.dispatcher = 0)
    (hrel : Related t program mode fp s a) (i : Nat) (inst : EbpfInst)
    (hinst : program.insts[i]? = some inst) (hop : Opcode.decode inst.opcode = some .call)
    (hok : InstOk program.insts i inst .call) (hsrc : inst.src = 0) (result : Word) (mem : Memory)
    (hext : ext inst.imm.toNat (fun j : Fin 5 => s.regs (1 + j)) s.mem = some (result, mem)) :
    t.Reaches (instAt program mode i) a (instAt program mode i + 71) (fun a' =>
        ∃ v, Related t program mode fp ((servedState s result mem).scratch v) a') ∧
      Listed t.marks t.code (instAt program mode i + 71) (unwindCode program inst) ∧
      unitAt program mode (i + 1) =
        instAt program mode i + 71 + codeLength (unwindCode program inst) ∧
      instAt program mode i + 71 + codeLength (unwindCode program inst) ≤ t.code.length := by
  have hshort := ht.short
  have hformat := ht.validated.format inst (List.mem_of_getElem? hinst)
  have hstart := ht.validated.start_of_decodes i inst _ hinst hop
  -- `validate` has seen that the number is one of a helper.
  have himm : 0 ≤ inst.imm ∧ inst.imm < 64 := by
    rcases hok.checked with ⟨-, hlow, hhigh⟩ | ⟨hlocal, -⟩
    · exact ⟨hlow, hhigh⟩
    · exact absurd (hsrc.symm.trans hlocal) (by decide)
  have hidx : u32 inst.imm = inst.imm.toNat := by
    rw [u32]
    omega
  have hlt : inst.imm.toNat < maxExtFuncs := by
    simp only [maxExtFuncs]
    omega
  have hcode : instCode program i (instAt program mode i) inst .call ++ truncateCode inst =
      (.bin .mov true rcxAlt rcx :: helperCode (instAt program mode i + 3) inst.imm.toNat) ++
        unwindCode program inst := by
    rw [truncateCode_none inst _ hformat.opcode hop rfl, List.append_nil, instCode, callCode,
      if_pos hsrc, hidx]
    rfl
  have hlist := ht.listed_body i inst _ hinst hstart hop
  have hend := hlist.bound (ht.instAt_le i hstart)
  have hunit := unitAt_succ program mode i inst _ hinst hstart hop
  rw [hcode, codeLength_append, length_helper _ _ hlt, ← Nat.add_assoc] at hend hunit
  rw [hcode] at hlist
  rcases hlist.append with ⟨hhelper, hunwind⟩
  rw [length_helper _ _ hlt] at hunwind
  exact ⟨ht.calls_helper hserves hdispatcher hrel inst.imm.toNat (instAt program mode i) hlt hhelper
    (by omega) result mem hext, hunwind, hunit, hend⟩

/-- What comes after the call of a helper: the flags say whether the result
    was 0, where that matters. -/
theorem InPlace.unwinds (ht : InPlace t host program size mode) (inst : EbpfInst) (off : Nat)
    (hunwind : program.unwindStackExtensionIndex = some inst.imm.toNat)
    (hlist : Listed t.marks t.code off (unwindCode program inst))
    (hend : off + codeLength (unwindCode program inst) ≤ t.code.length) (a : Abs)
    (hstack : a.stack.length ≤ 64) :
    ∃ f, t.Runs off a (if a.cpu.regs rax = 0 then exitStart program mode
        else off + codeLength (unwindCode program inst)) ⟨{ a.cpu with flags := f }, a.stack⟩ := by
  have hroom := ht.room
  have hshort := ht.short
  have hexit := ht.listed_exit.2
  have hcode : unwindCode program inst =
    [.binImm .cmp true 0 (mapRegister 0)] ++ [.jcc .e targetPcExit 0] := if_pos hunwind
  rw [hcode] at hlist hend ⊢
  rcases hlist.append with ⟨hcompare, hjcc⟩
  have hcmp := (computes_binImm .cmp true 0 (mapRegister 0) a (mapRegister_free 0).1
    (by omega)).runs t hcompare (by rw [List.length_singleton]; omega)
  have hbin : a.cpu.bin ImmOp.cmp.toBin true (BitVec.ofInt 64 0) (mapRegister 0) =
    { a.cpu with flags := some (subFlags (a.cpu.regs rax) 0#64) } := rfl
  rw [hbin] at hcmp
  have hlen : codeLength [Encoded.binImm .cmp true 0 (mapRegister 0)] = 7 := rfl
  have hall : codeLength ([Encoded.binImm .cmp true 0 (mapRegister 0)] ++
    [.jcc .e targetPcExit 0]) = 13 := rfl
  rw [hlen] at hcmp hjcc
  rw [hall] at hend ⊢
  have hjump := Site.Runs.jcc t ⟨{ a.cpu with flags := some (subFlags (a.cpu.regs rax) 0#64) },
    a.stack⟩ .e targetPcExit 0 _ hjcc.1 ht.jumps_exit (by omega) (by omega) rfl
  have hzero : Cond.e.holds (subFlags (a.cpu.regs rax) 0#64) = decide (a.cpu.regs rax = 0) :=
    zero_flag (a.cpu.regs rax) 0#64
  simp only [hzero, decide_eq_true_eq] at hjump
  exact ⟨_, hcmp.trans hjump⟩

/-- A helper that is back, and the next instruction. -/
theorem InPlace.advances_helper (ht : InPlace t host program size mode)
    (hserves : ServesHelpers t host program ext) (hdispatcher : host.dispatcher = 0)
    (hrel : Related t program mode fp s a) (i : Nat) (inst : EbpfInst)
    (hinst : program.insts[i]? = some inst) (hop : Opcode.decode inst.opcode = some .call)
    (hok : InstOk program.insts i inst .call) (hsrc : inst.src = 0) (result : Word) (mem : Memory)
    (hext : ext inst.imm.toNat (fun j : Fin 5 => s.regs (1 + j)) s.mem = some (result, mem))
    (hgoes : ¬ (program.unwindStackExtensionIndex = some inst.imm.toNat ∧ result = 0))
    (hnext : IsStart program.insts (i + 1)) :
    t.Reaches (instAt program mode i) a (instAt program mode (i + 1)) (fun a' =>
      ∃ v, Related t program mode fp ((servedState s result mem).scratch v) a') := by
  rcases ht.serves hserves hdispatcher hrel i inst hinst hop hok hsrc result mem hext with
    ⟨hcall, hlist, hunit, hend⟩
  refine hcall.bind (fun a' ha' => ?_)
  rcases ha' with ⟨v, hrel'⟩
  have hfall : ∀ a', t.Runs (unitAt program mode (i + 1)) a' (instAt program mode (i + 1)) a' :=
    fun a' => ht.next i inst _ hinst hop (by simp only [ne_eq, reduceCtorEq, not_false_eq_true])
      hnext a'
  by_cases hunwind : program.unwindStackExtensionIndex = some inst.imm.toNat
  · rcases ht.unwinds inst _ hunwind hlist hend a' (by have := hrel'.length; omega) with ⟨f, hrun⟩
    have hrax : a'.cpu.regs rax = result := hrel'.regs 0 (Nat.zero_le _)
    rw [hrax, if_neg (fun hzero => hgoes ⟨hunwind, hzero⟩), ← hunit] at hrun
    exact (hrun.trans (hfall _)).reaches ⟨v, hrel'.flags f⟩
  · have hnone : unwindCode program inst = [] := if_neg hunwind
    have hplace : unitAt program mode (i + 1) = instAt program mode i + 71 := by
      rw [hunit, hnone]
      rfl
    rw [← hplace]
    exact (hfall a').reaches ⟨v, hrel'⟩

/-- A helper that unwinds. -/
theorem InPlace.leaves_helper (ht : InPlace t host program size mode)
    (hserves : ServesHelpers t host program ext) (hdispatcher : host.dispatcher = 0)
    (hrel : Related t program mode fp s a) (i : Nat) (inst : EbpfInst)
    (hinst : program.insts[i]? = some inst) (hop : Opcode.decode inst.opcode = some .call)
    (hok : InstOk program.insts i inst .call) (hsrc : inst.src = 0) (mem : Memory)
    (hext : ext inst.imm.toNat (fun j : Fin 5 => s.regs (1 + j)) s.mem = some (0, mem))
    (hunwind : program.unwindStackExtensionIndex = some inst.imm.toNat) :
    t.Reaches (instAt program mode i) a (exitStart program mode) (fun a' =>
      a'.cpu.regs rax = 0 ∧ a'.cpu.mem = mem ∧ a'.cpu.regs rbp = fp) := by
  rcases ht.serves hserves hdispatcher hrel i inst hinst hop hok hsrc 0 mem hext with
    ⟨hcall, hlist, -, hend⟩
  refine hcall.bind (fun a' ha' => ?_)
  rcases ha' with ⟨v, hrel'⟩
  rcases ht.unwinds inst _ hunwind hlist hend a' (by have := hrel'.length; omega) with ⟨f, hrun⟩
  have hrax : a'.cpu.regs rax = 0 := hrel'.regs 0 (Nat.zero_le _)
  rw [if_pos hrax] at hrun
  exact hrun.reaches ⟨hrax, hrel'.mem, hrel'.frame⟩

/-- A call of a helper as the interpreter makes it. -/
theorem externalCall_running (s s' : ExecState) (imm : Int)
    (h : externalCall program ext s imm = .running s') : ∃ result mem,
      ext imm.toNat (fun j : Fin 5 => s.regs (1 + j)) s.mem = some (result, mem) ∧
      ¬ (program.unwindStackExtensionIndex = some imm.toNat ∧ result = 0) ∧
      s' = servedState s result mem := by
  simp only [externalCall] at h
  cases hext : ext imm.toNat (fun j : Fin 5 => s.regs (1 + j)) s.mem with
  | none =>
      rw [hext] at h
      exact absurd h (by simp only [reduceCtorEq, not_false_eq_true])
  | some answer =>
      rcases answer with ⟨result, mem⟩
      rw [hext] at h
      simp only at h
      split at h
      next => exact absurd h (by simp only [reduceCtorEq, not_false_eq_true])
      next hgoes => exact ⟨result, mem, rfl, hgoes, (ExecResult.running.inj h).symm⟩

theorem externalCall_returned (s : ExecState) (imm : Int) (v : Word)
    (h : externalCall program ext s imm = .returned v) : ∃ mem,
      ext imm.toNat (fun j : Fin 5 => s.regs (1 + j)) s.mem = some (0, mem) ∧
      program.unwindStackExtensionIndex = some imm.toNat ∧ v = 0 := by
  simp only [externalCall] at h
  cases hext : ext imm.toNat (fun j : Fin 5 => s.regs (1 + j)) s.mem with
  | none =>
      rw [hext] at h
      exact absurd h (by simp only [reduceCtorEq, not_false_eq_true])
  | some answer =>
      rcases answer with ⟨result, mem⟩
      rw [hext] at h
      simp only at h
      split at h
      next hunwind =>
        have hv : v = result := (ExecResult.returned.inj h).symm
        exact ⟨mem, by rw [hunwind.2], hunwind.1, hv.trans hunwind.2⟩
      next => exact absurd h (by simp only [reduceCtorEq, not_false_eq_true])

theorem AvoidsRetpoline.target (havoids : AvoidsRetpoline program) (hvalidated : Validated program)
    (i : Nat) (hs : s.pc = i + 1) (inst : EbpfInst) (op : Opcode)
    (hinst : program.insts[i]? = some inst) (hop : Opcode.decode inst.opcode = some op)
    (hjump : op.isJump = true)
    (hbounds : 0 ≤ (i : Int) + 1 + inst.offset ∧
      (i : Int) + 1 + inst.offset < program.insts.length) :
    (s.jump inst.offset).pc ≠ targetPcRetpoline := by
  intro hclash
  have hpc := (jump_target i program.insts.length inst.offset hvalidated.few hbounds).2
  refine havoids i inst op hinst hop hjump ?_
  rw [← hclash, ExecState.jump, hs, hpc, Int.toNat_of_nonneg hbounds.1]

/-- An instruction that is not a call. The state is past the instruction. -/
theorem InPlace.advances_inst (ht : InPlace t host program size mode)
    (havoids : AvoidsRetpoline program) (hrel : Related t program mode fp s a) (i : Nat)
    (hs : s.pc = i + 1) (inst : EbpfInst) (op : Opcode) (hinst : program.insts[i]? = some inst)
    (hop : Opcode.decode inst.opcode = some op) (hok : InstOk program.insts i inst op)
    (hcall : op ≠ .call) {s' : ExecState} (hexec : execInst program ext s inst op = .running s')
    (hnext : IsStart program.insts s'.pc) : Advances t program mode fp i s' a := by
  cases op with
  | alu is64 op operand =>
      have hs' := (ExecResult.running.inj hexec).symm
      subst hs'
      exact ht.advances_alu hrel i hs inst is64 op operand hinst hop hok (hs ▸ hnext)
  | le =>
      have hs' := (ExecResult.running.inj hexec).symm
      subst hs'
      exact ht.advances_le hrel i hs inst hinst hop hok (hs ▸ hnext)
  | be =>
      have hs' := (ExecResult.running.inj hexec).symm
      subst hs'
      exact ht.advances_be hrel i hs inst hinst hop hok (hs ▸ hnext)
  | ldx size =>
      simp only [execInst] at hexec
      split at hexec
      next => exact absurd hexec (by simp only [reduceCtorEq, not_false_eq_true])
      next v hload =>
        have hs' := (ExecResult.running.inj hexec).symm
        subst hs'
        exact ht.advances_ldx hrel i hs inst size v hinst hop hok (hs ▸ hnext) hload
  | st size =>
      simp only [execInst] at hexec
      split at hexec
      next => exact absurd hexec (by simp only [reduceCtorEq, not_false_eq_true])
      next mem hstore =>
        have hs' := (ExecResult.running.inj hexec).symm
        subst hs'
        exact ht.advances_st hrel i hs inst size mem hinst hop hok (hs ▸ hnext) hstore
  | stx size =>
      simp only [execInst] at hexec
      split at hexec
      next => exact absurd hexec (by simp only [reduceCtorEq, not_false_eq_true])
      next mem hstore =>
        have hs' := (ExecResult.running.inj hexec).symm
        subst hs'
        exact ht.advances_stx hrel i hs inst size mem hinst hop hok (hs ▸ hnext) hstore
  | lddw =>
      simp only [execInst, hs] at hexec
      split at hexec
      next => exact absurd hexec (by simp only [reduceCtorEq, not_false_eq_true])
      next second hsecond =>
        have hs' := (ExecResult.running.inj hexec).symm
        subst hs'
        have hpc : ((s.setReg inst.dst (BitVec.ofNat 64
            (u32 inst.imm ||| u32 second.imm <<< 32))).jump 1).pc = i + 2 := by
          have hfew := ht.validated.few
          have hlt := (List.getElem?_eq_some_iff.mp hsecond).1
          simp only [maxInsts] at hfew
          simp only [ExecState.jump, ExecState.setReg, hs]
          omega
        exact ht.advances_lddw hrel i hs inst second hinst hop hok hsecond (hpc ▸ hnext)
  | ja =>
      have hs' := (ExecResult.running.inj hexec).symm
      subst hs'
      exact ht.advances_ja hrel i hs inst hinst hop hok hnext
        (havoids.target ht.validated i hs inst _ hinst hop rfl (JumpOk.bounds hok.checked))
  | jmp is64 cond operand =>
      have hs' := (ExecResult.running.inj hexec).symm
      exact ht.advances_jmp hrel i hs inst is64 cond operand hinst hop hok s' hs' hnext
        (havoids.target ht.validated i hs inst _ hinst hop rfl (JumpOk.bounds hok.checked))
  | exit =>
      simp only [execInst] at hexec
      split at hexec
      next hdepth =>
        have hs' := (ExecResult.running.inj hexec).symm
        subst hs'
        exact ht.advances_return hrel i inst hinst hop hdepth hnext
      next => exact absurd hexec (by simp only [reduceCtorEq, not_false_eq_true])
  | call => exact absurd rfl hcall

/-- What a state of the interpreter executes, with what is known of it. -/
theorem Related.executes (hvalidated : Validated program) (hrel : Related t program mode fp s a)
    (inst : EbpfInst) (op : Opcode) (hpc : s.pc < program.numInsts)
    (hinst : program.insts[s.pc]? = some inst) (hop : Opcode.decode inst.opcode = some op) :
    enterFunction program s = s ∧ (s.jump 1).pc = s.pc + 1 ∧
      InstOk program.insts s.pc inst op := by
  have hstart := hvalidated.start_of_decodes s.pc inst op hinst hop
  refine ⟨enterFunction_eq program s hvalidated.usage hrel.usage, jump_one hvalidated hpc, ?_⟩
  rcases hvalidated.insts s.pc inst hinst hstart with ⟨op', hop', hok⟩
  rw [hop, Option.some.injEq] at hop'
  rw [hop']
  exact hok

theorem callsHelper_eq (inst : EbpfInst) (op : Opcode) (hn : inst.opcode < 256)
    (hinst : program.insts[s.pc]? = some inst) (hop : Opcode.decode inst.opcode = some op) :
    callsHelper program s = decide (op = .call ∧ inst.src = 0) := by
  have hcall : op = .call ↔ inst.opcode = 0x85 := (decode_call _ _ hn hop).symm
  simp only [callsHelper, hinst, hcall, Bool.decide_and]
  rfl

/-- One instruction after which the run goes on. -/
theorem InPlace.step_running (ht : InPlace t host program size mode)
    (hserves : ServesHelpers t host program ext) (hdispatcher : host.dispatcher = 0)
    (havoids : AvoidsRetpoline program) (hrel : Related t program mode fp s a) {s' : ExecState}
    (hstep : execStep program ext s = .running s') (hnext : IsStart program.insts s'.pc) :
    t.Reaches (instAt program mode s.pc) a (instAt program mode s'.pc) (fun a' =>
      ∃ v, Related t program mode fp (afterStep program s s' v) a') := by
  rcases execStep_running program ext s s' hstep with ⟨inst, op, hpc, hinst, hop, hexec⟩
  rcases hrel.executes ht.validated inst op hpc hinst hop with ⟨henter, hone, hok⟩
  have hformat := ht.validated.format inst (List.mem_of_getElem? hinst)
  have hhelper := callsHelper_eq inst op hformat.opcode hinst hop
  rw [henter] at hexec
  -- All but the helpers leave the registers as the interpreter does.
  have hplain : callsHelper program s = false → Advances t program mode fp s.pc s' a →
      t.Reaches (instAt program mode s.pc) a (instAt program mode s'.pc) (fun a' =>
        ∃ v, Related t program mode fp (afterStep program s s' v) a') := by
    rintro hnone ⟨a', hrel', hrun⟩
    refine hrun.reaches ⟨s'.regs, ?_⟩
    rw [afterStep, hnone, if_neg Bool.false_ne_true]
    exact hrel'
  by_cases hcall : op = .call
  · subst hcall
    simp only [execInst] at hexec
    split at hexec
    next hsrc =>
      rcases externalCall_running (s.jump 1) s' inst.imm hexec with
        ⟨result, mem, hext, hgoes, rfl⟩
      have hpc' : (servedState (s.jump 1) result mem).pc = s.pc + 1 := hone
      rw [hpc'] at hnext ⊢
      have hyes : callsHelper program s = true := hhelper.trans (decide_eq_true ⟨rfl, hsrc⟩)
      simp only [afterStep, hyes, if_true]
      exact ht.advances_helper hserves hdispatcher (hrel.jump 1) s.pc inst hinst hop hok hsrc
        result mem hext hgoes hnext
    next hsrc =>
      have hlocal : inst.src = 1 := by
        rcases hok.checked with ⟨hext, -⟩ | ⟨hlocal, -⟩
        · exact absurd hext hsrc
        · exact hlocal
      rw [if_pos hlocal] at hexec
      rcases localCall_running (s.jump 1) s' inst.imm hexec with ⟨hdepth, rfl⟩
      refine hplain (hhelper.trans (decide_eq_false (fun h => hsrc h.2))) ?_
      exact ht.advances_local (hrel.jump 1) s.pc hone inst hinst hop hok hlocal hdepth hnext
  · refine hplain (hhelper.trans (decide_eq_false (fun h => hcall h.1))) ?_
    exact ht.advances_inst havoids (hrel.jump 1) s.pc hone inst op hinst hop hok hcall hexec hnext

/-- What ends a run. -/
theorem execInst_returned (s : ExecState) (inst : EbpfInst) (op : Opcode) (v : Word)
    (h : execInst program ext s inst op = .returned v) :
    (op = .exit ∧ s.frameIndex = 0 ∧ v = s.regs 0) ∨
      (op = .call ∧ inst.src = 0 ∧ externalCall program ext s inst.imm = .returned v) := by
  cases op with
  | exit =>
      simp only [execInst] at h
      split at h
      next => exact absurd h (by simp only [reduceCtorEq, not_false_eq_true])
      next hdepth => exact Or.inl ⟨rfl, by omega, (ExecResult.returned.inj h).symm⟩
  | call =>
      simp only [execInst] at h
      split at h
      next hsrc => exact Or.inr ⟨rfl, hsrc, h⟩
      next =>
        split at h
        next =>
          simp only [localCall] at h
          split at h
          all_goals exact absurd h (by simp only [reduceCtorEq, not_false_eq_true])
        next =>
          split at h
          all_goals exact absurd h (by simp only [reduceCtorEq, not_false_eq_true])
  | ldx size =>
      simp only [execInst] at h
      split at h
      all_goals exact absurd h (by simp only [reduceCtorEq, not_false_eq_true])
  | st size =>
      simp only [execInst] at h
      split at h
      all_goals exact absurd h (by simp only [reduceCtorEq, not_false_eq_true])
  | stx size =>
      simp only [execInst] at h
      split at h
      all_goals exact absurd h (by simp only [reduceCtorEq, not_false_eq_true])
  | lddw =>
      simp only [execInst] at h
      split at h
      all_goals exact absurd h (by simp only [reduceCtorEq, not_false_eq_true])
  | _ => exact absurd h (by simp only [execInst, reduceCtorEq, not_false_eq_true])

/-- How a machine comes to the epilogue. -/
structure Finished (fp : Word) (v : Word) (mem : Memory) (a : Abs) : Prop where
  result : a.cpu.regs rax = v
  mem : a.cpu.mem = mem
  frame : a.cpu.regs rbp = fp

/-- The last instruction of a run. -/
theorem InPlace.step_returned (ht : InPlace t host program size mode)
    (hserves : ServesHelpers t host program ext) (hdispatcher : host.dispatcher = 0)
    (hrel : Related t program mode fp s a) {v : Word}
    (hstep : execStep program ext s = .returned v) :
    t.Reaches (instAt program mode s.pc) a (exitStart program mode)
      (Finished fp v (finalMemory program ext s)) := by
  rcases execStep_returned program ext s v hstep with ⟨inst, op, hpc, hinst, hop, hexec⟩
  rcases hrel.executes ht.validated inst op hpc hinst hop with ⟨henter, hone, hok⟩
  have hformat := ht.validated.format inst (List.mem_of_getElem? hinst)
  rw [henter] at hexec
  have hopcode := (decode_call _ _ hformat.opcode hop).symm
  rcases execInst_returned (s.jump 1) inst op v hexec with ⟨rfl, hdepth, hv⟩ | ⟨rfl, hsrc, hcall⟩
  · have hne : inst.opcode ≠ 0x85 := fun h => absurd (hopcode.mpr h) (by simp only [reduceCtorEq,
      not_false_eq_true])
    have hmem : finalMemory program ext s = s.mem := by
      simp only [finalMemory, hinst, if_neg hne]
    rcases ht.leaves hrel s.pc inst hinst hop hdepth with ⟨f, hrun⟩
    refine hrun.reaches ⟨?_, hrel.mem.trans hmem.symm, hrel.frame⟩
    rw [hv]
    exact hrel.regs 0 (Nat.zero_le _)
  · rcases externalCall_returned (s.jump 1) inst.imm v hcall with ⟨mem, hext, hunwind, rfl⟩
    have hmem : finalMemory program ext s = mem := by
      have hext' : ext inst.imm.toNat (fun j : Fin 5 => s.regs (1 + j)) s.mem = some (0, mem) :=
        hext
      simp only [finalMemory, hinst, if_pos (hopcode.mp rfl), hext', Option.elim_some]
    refine (ht.leaves_helper hserves hdispatcher (hrel.jump 1) s.pc inst hinst hop hok hsrc mem hext
      hunwind).bind (fun a' ha' => ?_)
    exact (Site.Runs.refl t _ a').reaches ⟨ha'.1, ha'.2.1.trans hmem.symm, ha'.2.2⟩

/-! ## Whole runs -/

/-- The compiled program returns what every run of it returns. -/
theorem InPlace.run (ht : InPlace t host program size mode)
    (hserves : ServesHelpers t host program ext) (hdispatcher : host.dispatcher = 0)
    (havoids : AvoidsRetpoline program) {v : Word} {mem : Memory}
    (hends : Ends program ext s v mem) (hrel : Related t program mode fp s a) :
    t.Reaches (instAt program mode s.pc) a (exitStart program mode) (Finished fp v mem) := by
  induction hends generalizing a with
  | returned s v h => exact ht.step_returned hserves hdispatcher hrel h
  | running s s' v mem h hrest ih =>
      have hnext : IsStart program.insts s'.pc := by
        have hstart := (hrest s'.regs).start ht.validated
        rw [afterStep_pc] at hstart
        exact hstart
      refine (ht.step_running hserves hdispatcher havoids hrel h hnext).bind (fun a' ha' => ?_)
      rcases ha' with ⟨w, hrel'⟩
      have hrun := ih w hrel'
      rw [afterStep_pc] at hrun
      exact hrun

theorem GoesOn.start (hvalidated : Validated program) (n : Nat)
    (h : GoesOn program ext n s) : IsStart program.insts s.pc := by
  cases n with
  | zero => exact h
  | succ n =>
      rcases h with ⟨s', hstep, -⟩
      rcases execStep_running program ext s s' hstep with ⟨inst, op, -, hinst, hop, -⟩
      exact hvalidated.start_of_decodes s.pc inst op hinst hop

/-- The compiled program stays with the interpreter as long as that goes on. -/
theorem InPlace.follows (ht : InPlace t host program size mode)
    (hserves : ServesHelpers t host program ext) (hdispatcher : host.dispatcher = 0)
    (havoids : AvoidsRetpoline program) (n : Nat) (hgoes : GoesOn program ext n s)
    (hrel : Related t program mode fp s a) {c : Cpu} (hc : t.Rep a c) :
    ∃ s' a' c', Goes program ext n s s' ∧ Related t program mode fp s' a' ∧ t.Rep a' c' ∧
      t.Steps ⟨c, t.at (instAt program mode s.pc)⟩ ⟨c', t.at (instAt program mode s'.pc)⟩ := by
  induction n generalizing s a c with
  | zero => exact ⟨s, a, c, Goes.stop s, hrel, hc, Relation.ReflTransGen.refl⟩
  | succ n ih =>
      -- What a helper leaves in its registers is known only when it has run, so the
      -- hypothesis is about all of it.
      rcases hgoes with ⟨s1, hstep, hrest⟩
      have hnext : IsStart program.insts s1.pc := by
        have hstart := (hrest s1.regs).start ht.validated n
        rw [afterStep_pc] at hstart
        exact hstart
      rcases ht.step_running hserves hdispatcher havoids hrel hstep hnext c hc with
        ⟨a1, c1, ⟨w, hrel1⟩, hc1, hfirst⟩
      rcases ih (hrest w) hrel1 hc1 with ⟨s', a', c', hrun, hrel', hc', hsteps⟩
      rw [afterStep_pc] at hsteps
      exact ⟨s', a', c', Goes.next n s s1 s' w hstep hrun, hrel', hc', hfirst.trans hsteps⟩

end Runs

end UniBPF
