import UniBPF.Theory.Validated

/-!
# Runs of Loaded Programs

What the checks of `validate` are worth to the interpreter. It looks at none
of them again, so everything it takes for granted has to hold at each of its
instructions, and the program counter goes where jumps, calls and returns
send it.

`RunInv` says where it can be: at the start of an instruction, past the last
one, or where a local call goes. `validate` does not look at the last, so a
call may come to the second half of a load, which no jump can.

A run that ends without a value has then one of few reasons.
`execStep_failed` and `execStep_crashed` name them.

## Main definitions

* `Landing`, `CalledAt`: Where a run can be.
* `RunInv`: The invariant of a run.
* `TooDeep`, `Faults`: What can go wrong at an instruction.

## Theorems

* `runInv_step`, `runInv_run`: The invariant is kept.
* `execStep_failed`, `execStep_crashed`: How a run ends without a value.
-/

namespace UniBPF

/-- Where a run goes by itself: to the start of an instruction, or past the
    last. -/
def Landing (program : ProgramView) (pc : Nat) : Prop :=
  pc = program.insts.length ∨ IsStart program.insts pc

/-- A local call goes there. -/
def CalledAt (program : ProgramView) (pc : Nat) : Prop :=
  pc < program.insts.length ∧
    ∃ i inst, program.insts[i]? = some inst ∧ localCallTarget i inst = some pc

/-- What holds of a run between two instructions. -/
structure RunInv (program : ProgramView) (s : ExecState) : Prop where
  pc : Landing program s.pc ∨ CalledAt program s.pc
  depth : s.frameIndex ≤ maxCallDepth
  returns : ∀ d < s.frameIndex, Landing program (s.frames d).returnAddress

/-- The run is about to make a local call, and all frames are in use. -/
def TooDeep (program : ProgramView) (s : ExecState) : Prop :=
  ∃ inst, program.insts[s.pc]? = some inst ∧ inst.opcode = 0x85 ∧ inst.src = 1 ∧
    s.frameIndex = maxCallDepth

/-- The operation touches memory that is not there, or its helper does. -/
def FaultsAt (ext : Externals) (s : ExecState) (inst : EbpfInst) : Opcode → Prop
  | .ldx size => s.mem.load (s.regs inst.src + BitVec.ofInt 64 inst.offset) size = none
  | .st size => s.mem.store (s.regs inst.dst + BitVec.ofInt 64 inst.offset) size
      (BitVec.ofInt 64 inst.imm).toNat = none
  | .stx size => s.mem.store (s.regs inst.dst + BitVec.ofInt 64 inst.offset) size
      (s.regs inst.src).toNat = none
  | .call => inst.src = 0 ∧ ext inst.imm.toNat (fun i => s.regs (1 + i)) s.mem = none
  | _ => False

def Faults (program : ProgramView) (ext : Externals) (s : ExecState) : Prop :=
  ∃ inst op, program.insts[s.pc]? = some inst ∧ Opcode.decode inst.opcode = some op ∧
    FaultsAt ext s inst op

section Runs

variable {program : ProgramView} {ext : Externals}

/-! ## Where an instruction leads -/

theorem landing_of_skip (pc : Nat) (hpc : pc ≤ program.insts.length)
    (hskip : skipAfter (program.insts.take pc) false = false) : Landing program pc := by
  rcases Nat.lt_or_eq_of_le hpc with hlt | heq
  · exact Or.inr ⟨hlt, hskip⟩
  · exact Or.inl heq

theorem Validated.landing_next (h : Validated program) (i : Nat) (inst : EbpfInst) (op : Opcode)
    (hinst : program.insts[i]? = some inst) (hop : Opcode.decode inst.opcode = some op)
    (hne : op ≠ .lddw) : Landing program (i + 1) := by
  have hlt := (List.getElem?_eq_some_iff.mp hinst).1
  have hopcode : inst.opcode ≠ 0x18 := fun heq =>
    hne ((decode_lddw _ op (h.format inst (List.mem_of_getElem? hinst)).opcode hop).mp heq)
  refine landing_of_skip (i + 1) hlt ?_
  rw [skipAfter_take _ i inst hinst, beq_eq_false_iff_ne.mpr hopcode, Bool.and_false]

theorem Validated.landing_lddw (h : Validated program) (i : Nat) (inst : EbpfInst)
    (hinst : program.insts[i]? = some inst) (hop : Opcode.decode inst.opcode = some .lddw)
    (hok : OpOk program.insts i inst .lddw) : Landing program (i + 2) := by
  have hsecond : (program.insts[i + 1]?).map EbpfInst.opcode = some 0 := hok
  rcases Option.map_eq_some_iff.mp hsecond with ⟨second, hsecond, -⟩
  have hlt := (List.getElem?_eq_some_iff.mp hsecond).1
  have hstart := h.start_of_decodes i inst _ hinst hop
  have hopcode : inst.opcode = 0x18 :=
    (decode_lddw _ _ (h.format inst (List.mem_of_getElem? hinst)).opcode hop).mpr rfl
  refine landing_of_skip (i + 2) hlt ?_
  rw [skipAfter_take _ (i + 1) second hsecond, skipAfter_take _ i inst hinst, hstart.2, hopcode]
  rfl

/-- A jump comes to the start of an instruction. -/
theorem Validated.start_of_jump (h : Validated program) (i : Nat) (inst : EbpfInst)
    (hok : JumpOk program.insts i inst) :
    IsStart program.insts ((i : Int) + 1 + inst.offset).toNat := by
  have hbounds := hok.bounds
  have hlt : ((i : Int) + 1 + inst.offset).toNat < program.insts.length := by omega
  refine ⟨hlt, ?_⟩
  cases hskip : skipAfter (program.insts.take ((i : Int) + 1 + inst.offset).toNat) false with
  | false => rfl
  | true =>
      have htarget := List.getElem?_eq_getElem hlt
      -- The second half of a load has an opcode of zero, which no jump goes to.
      have hzero := h.second_half _ _ htarget hskip
      refine absurd ?_ hok.middle
      rw [htarget, Option.map_some, hzero]

/-- The program counter in 16 bits. -/
theorem Validated.jump_pc (h : Validated program) (s : ExecState) (offset : Int) (pc : Nat)
    (hpc : pc ≤ program.insts.length) (hsum : (s.pc : Int) + offset = pc) :
    (s.jump offset).pc = pc := by
  have hfew := h.few
  simp only [maxInsts] at hfew
  simp only [ExecState.jump]
  omega

/-! ## The invariant -/

theorem enterFunction_returns (s : ExecState) (d : Nat) :
    ((enterFunction program s).frames d).returnAddress = (s.frames d).returnAddress ∧
      (enterFunction program s).mem = s.mem := by
  unfold enterFunction
  split
  next usage =>
    split
    next =>
      refine ⟨?_, rfl⟩
      simp only [ExecState.setFrame]
      by_cases hd : d = s.frameIndex
      · rw [hd, Function.update_self]
      · rw [Function.update_of_ne hd]
    next => exact ⟨rfl, rfl⟩
  next => exact ⟨rfl, rfl⟩

/-- A local call, where the callee is and where it returns to. -/
theorem Validated.runInv_call (h : Validated program) {s s' : ExecState} (i : Nat)
    (hpc : s.pc = i + 1)
    (hreturns : ∀ d < s.frameIndex, Landing program (s.frames d).returnAddress) (inst : EbpfInst)
    (hinst : program.insts[i]? = some inst) (hop : Opcode.decode inst.opcode = some .call)
    (hopcode : inst.opcode = 0x85) (hok : OpOk program.insts i inst .call) (hsrc : inst.src = 1)
    (hexec : localCall s inst.imm = .running s') : RunInv program s' := by
  have hbounds : 0 ≤ (i : Int) + (inst.imm + 1) ∧
      (i : Int) + (inst.imm + 1) < program.insts.length := by
    rcases hok with hext | hlocal
    · exact absurd (hsrc.symm.trans hext.1) (by decide)
    · exact hlocal.2
  -- The call has one word, so it is the next instruction that is returned to.
  have hback := h.landing_next i inst _ hinst hop (by simp only [ne_eq, reduceCtorEq,
    not_false_eq_true])
  simp only [localCall] at hexec
  split at hexec
  next => exact absurd hexec (by simp only [reduceCtorEq, not_false_eq_true])
  next hroom =>
    have hs' := (ExecResult.running.inj hexec).symm
    have hpc' : s'.pc = ((i : Int) + (inst.imm + 1)).toNat := by
      rw [hs']
      refine h.jump_pc _ _ _ (by omega) ?_
      simp only [ExecState.setReg, ExecState.setFrame, hpc]
      push_cast
      omega
    refine ⟨Or.inr ⟨by rw [hpc']; omega, i, inst, hinst, ?_⟩, ?_, fun d hd => ?_⟩
    · have hfew := h.few
      simp only [maxInsts] at hfew
      rw [localCallTarget, if_pos ⟨hopcode, hsrc⟩, hpc', Option.some.injEq]
      omega
    · rw [hs']
      simp only [ExecState.jump, ExecState.setReg, ExecState.setFrame]
      omega
    · rw [hs'] at hd ⊢
      simp only [ExecState.jump, ExecState.setReg, ExecState.setFrame] at hd ⊢
      -- Only the last frame is new.
      by_cases hlast : d = s.frameIndex
      · rw [hlast, Function.update_self, hpc]
        exact hback
      · rw [Function.update_of_ne hlast]
        exact hreturns d (by omega)

/-- What one operation does to the invariant. -/
theorem Validated.runInv_inst (h : Validated program) {s s' : ExecState} (i : Nat)
    (hpc : s.pc = i + 1) (hdepth : s.frameIndex ≤ maxCallDepth)
    (hreturns : ∀ d < s.frameIndex, Landing program (s.frames d).returnAddress) (inst : EbpfInst)
    (op : Opcode) (hinst : program.insts[i]? = some inst)
    (hop : Opcode.decode inst.opcode = some op) (hok : OpOk program.insts i inst op)
    (hexec : execInst program ext s inst op = .running s') : RunInv program s' := by
  have hnext : op ≠ .lddw → Landing program s.pc := by
    intro hne
    rw [hpc]
    exact h.landing_next i inst op hinst hop hne
  -- Most operations leave the program counter and the frames alone.
  have hplain : op ≠ .lddw → s'.pc = s.pc → s'.frames = s.frames → s'.frameIndex = s.frameIndex →
      RunInv program s' := by
    intro hne hpc' hframes hindex
    refine ⟨Or.inl ?_, hindex ▸ hdepth, ?_⟩
    · rw [hpc']
      exact hnext hne
    · rw [hframes, hindex]
      exact hreturns
  have hjump : JumpOk program.insts i inst → RunInv program (s.jump inst.offset) := by
    intro hjump
    have hstart := h.start_of_jump i inst hjump
    have hbounds := hjump.bounds
    have hpc' : (s.jump inst.offset).pc = ((i : Int) + 1 + inst.offset).toNat :=
      h.jump_pc s _ _ (by omega) (by rw [hpc]; push_cast; omega)
    exact ⟨Or.inl (Or.inr (hpc' ▸ hstart)), hdepth, hreturns⟩
  cases op with
  | alu is64 op operand =>
      rw [← ExecResult.running.inj hexec] at hplain ⊢
      exact hplain (by simp only [ne_eq, reduceCtorEq, not_false_eq_true]) rfl rfl rfl
  | le =>
      rw [← ExecResult.running.inj hexec] at hplain ⊢
      exact hplain (by simp only [ne_eq, reduceCtorEq, not_false_eq_true]) rfl rfl rfl
  | be =>
      rw [← ExecResult.running.inj hexec] at hplain ⊢
      exact hplain (by simp only [ne_eq, reduceCtorEq, not_false_eq_true]) rfl rfl rfl
  | ldx size =>
      simp only [execInst] at hexec
      split at hexec
      next => exact absurd hexec (by simp only [reduceCtorEq, not_false_eq_true])
      next =>
        rw [← ExecResult.running.inj hexec] at hplain ⊢
        exact hplain (by simp only [ne_eq, reduceCtorEq, not_false_eq_true]) rfl rfl rfl
  | st size =>
      simp only [execInst] at hexec
      split at hexec
      next => exact absurd hexec (by simp only [reduceCtorEq, not_false_eq_true])
      next =>
        rw [← ExecResult.running.inj hexec] at hplain ⊢
        exact hplain (by simp only [ne_eq, reduceCtorEq, not_false_eq_true]) rfl rfl rfl
  | stx size =>
      simp only [execInst] at hexec
      split at hexec
      next => exact absurd hexec (by simp only [reduceCtorEq, not_false_eq_true])
      next =>
        rw [← ExecResult.running.inj hexec] at hplain ⊢
        exact hplain (by simp only [ne_eq, reduceCtorEq, not_false_eq_true]) rfl rfl rfl
  | lddw =>
      have hlands := h.landing_lddw i inst hinst hop hok
      simp only [execInst] at hexec
      split at hexec
      next => exact absurd hexec (by simp only [reduceCtorEq, not_false_eq_true])
      next second hsecond =>
        have hlt := (List.getElem?_eq_some_iff.mp hsecond).1
        rw [hpc] at hlt
        rw [← ExecResult.running.inj hexec]
        refine ⟨Or.inl ?_, hdepth, hreturns⟩
        rw [h.jump_pc _ 1 (i + 2) hlt (by simp only [ExecState.setReg, hpc]; push_cast; omega)]
        exact hlands
  | ja =>
      rw [← ExecResult.running.inj hexec]
      exact hjump hok
  | jmp is64 cond operand =>
      simp only [execInst] at hexec
      split at hexec
      next =>
        rw [← ExecResult.running.inj hexec]
        exact hjump hok
      next =>
        rw [← ExecResult.running.inj hexec] at hplain ⊢
        exact hplain (by simp only [ne_eq, reduceCtorEq, not_false_eq_true]) rfl rfl rfl
  | exit =>
      simp only [execInst] at hexec
      split at hexec
      next hframe =>
        rw [← ExecResult.running.inj hexec]
        refine ⟨Or.inl (hreturns (s.frameIndex - 1) (by omega)), ?_, fun d hd => ?_⟩
        · simp only [localReturn]
          omega
        · simp only [localReturn] at hd ⊢
          exact hreturns d (by omega)
      next => exact absurd hexec (by simp only [reduceCtorEq, not_false_eq_true])
  | call =>
      have hopcode : inst.opcode = 0x85 :=
        (decode_call _ _ (h.format inst (List.mem_of_getElem? hinst)).opcode hop).mpr rfl
      simp only [execInst] at hexec
      split at hexec
      next =>
        simp only [externalCall] at hexec
        split at hexec
        next => exact absurd hexec (by simp only [reduceCtorEq, not_false_eq_true])
        next =>
          split at hexec
          next => exact absurd hexec (by simp only [reduceCtorEq, not_false_eq_true])
          next =>
            rw [← ExecResult.running.inj hexec] at hplain ⊢
            exact hplain (by simp only [ne_eq, reduceCtorEq, not_false_eq_true]) rfl rfl rfl
      next hsrc =>
        split at hexec
        next hlocal =>
          exact h.runInv_call i hpc hreturns inst hinst hop hopcode hok hlocal hexec
        next hlocal =>
          rcases hok with hext | hcall
          · exact absurd hext.1 hsrc
          · exact absurd hcall.1 hlocal

/-- The state in which an operation is executed. -/
theorem Validated.entered (h : Validated program) (s : ExecState) (inst : EbpfInst)
    (hinst : program.insts[s.pc]? = some inst) :
    ((enterFunction program s).jump 1).pc = s.pc + 1 ∧
      ((enterFunction program s).jump 1).regs = s.regs ∧
      ((enterFunction program s).jump 1).mem = s.mem ∧
      ((enterFunction program s).jump 1).frameIndex = s.frameIndex ∧
      ∀ d, (((enterFunction program s).jump 1).frames d).returnAddress =
        (s.frames d).returnAddress := by
  have hlt := (List.getElem?_eq_some_iff.mp hinst).1
  have hfields := enterFunction_fields program s
  refine ⟨?_, hfields.2.1, (enterFunction_returns s 0).2, hfields.2.2,
    fun d => (enterFunction_returns s d).1⟩
  exact h.jump_pc _ 1 (s.pc + 1) hlt (by rw [hfields.1]; push_cast; rfl)

theorem Validated.runInv_step (h : Validated program) {s s' : ExecState} (hinv : RunInv program s)
    (hstep : execStep program ext s = .running s') : RunInv program s' := by
  rcases execStep_running program ext s s' hstep with ⟨inst, op, -, hinst, hop, hexec⟩
  rcases h.entered s inst hinst with ⟨hpc, -, -, hindex, hframes⟩
  rcases h.insts s.pc inst hinst (h.start_of_decodes s.pc inst op hinst hop) with ⟨op', hop', hok⟩
  rw [hop, Option.some.injEq] at hop'
  subst hop'
  refine h.runInv_inst s.pc hpc (hindex ▸ hinv.depth) (fun d hd => ?_) inst op hinst hop
    hok.checked hexec
  rw [hframes]
  exact hinv.returns d (hindex ▸ hd)

theorem Validated.runInv_run (h : Validated program) (n : Nat) {s s' : ExecState}
    (hinv : RunInv program s) (hrun : execFor program ext n s = .running s') :
    RunInv program s' := by
  induction n generalizing s with
  | zero =>
      rw [← ExecResult.running.inj hrun]
      exact hinv
  | succ n ih =>
      simp only [execFor] at hrun
      cases hstep : execStep program ext s with
      | running mid =>
          rw [hstep] at hrun
          exact ih (h.runInv_step hinv hstep) hrun
      | returned v =>
          rw [hstep] at hrun
          exact absurd hrun (by simp only [reduceCtorEq, not_false_eq_true])
      | failed =>
          rw [hstep] at hrun
          exact absurd hrun (by simp only [reduceCtorEq, not_false_eq_true])
      | crashed =>
          rw [hstep] at hrun
          exact absurd hrun (by simp only [reduceCtorEq, not_false_eq_true])

theorem runInv_start (junk : Nat → Word) (mem : Memory) (packet packetLen stackStart : Word)
    (stackLength : Nat) :
    RunInv program (execStart junk mem packet packetLen stackStart stackLength) :=
  ⟨Or.inl (landing_of_skip 0 (Nat.zero_le _) rfl), Nat.zero_le _,
    fun d hd => absurd hd (Nat.not_lt_zero d)⟩

/-! ## How a run ends without a value -/

/-- An operation fails only as a call that finds no frame. -/
theorem execInst_failed (s : ExecState) (i : Nat) (inst : EbpfInst) (op : Opcode)
    (hok : OpOk program.insts i inst op) :
    execInst program ext s inst op = .failed ↔
      op = .call ∧ inst.src = 1 ∧ maxCallDepth ≤ s.frameIndex := by
  cases op with
  | alu is64 op operand => simp only [execInst, reduceCtorEq, false_and]
  | le => simp only [execInst, reduceCtorEq, false_and]
  | be => simp only [execInst, reduceCtorEq, false_and]
  | ldx size =>
      simp only [execInst, reduceCtorEq, false_and, iff_false]
      split
      all_goals simp only [reduceCtorEq, not_false_eq_true]
  | st size =>
      simp only [execInst, reduceCtorEq, false_and, iff_false]
      split
      all_goals simp only [reduceCtorEq, not_false_eq_true]
  | stx size =>
      simp only [execInst, reduceCtorEq, false_and, iff_false]
      split
      all_goals simp only [reduceCtorEq, not_false_eq_true]
  | lddw =>
      simp only [execInst, reduceCtorEq, false_and, iff_false]
      split
      all_goals simp only [reduceCtorEq, not_false_eq_true]
  | ja => simp only [execInst, reduceCtorEq, false_and]
  | jmp is64 cond operand => simp only [execInst, reduceCtorEq, false_and]
  | exit =>
      simp only [execInst, reduceCtorEq, false_and, iff_false]
      split
      all_goals simp only [reduceCtorEq, not_false_eq_true]
  | call =>
      simp only [execInst, true_and]
      -- `validate` lets only calls of helpers and local calls pass.
      rcases hok with hext | hlocal
      · rw [if_pos hext.1, externalCall]
        have hsrc : inst.src ≠ 1 := by
          rw [hext.1]
          decide
        simp only [hsrc, false_and, iff_false]
        split
        next => simp only [reduceCtorEq, not_false_eq_true]
        next =>
          split
          all_goals simp only [reduceCtorEq, not_false_eq_true]
      · have hsrc : inst.src ≠ 0 := by
          rw [hlocal.1]
          decide
        rw [if_neg hsrc, if_pos hlocal.1, localCall]
        simp only [hlocal.1, true_and]
        split
        next hdeep => simp only [hdeep]
        next hroom => simp only [reduceCtorEq, hroom]

/-- An operation crashes only where it touches memory that is not there. -/
theorem execInst_crashed (s : ExecState) (i : Nat) (hpc : s.pc = i + 1) (inst : EbpfInst)
    (op : Opcode) (hok : OpOk program.insts i inst op) :
    execInst program ext s inst op = .crashed ↔ FaultsAt ext s inst op := by
  cases op with
  | alu is64 op operand => simp only [execInst, reduceCtorEq, FaultsAt]
  | le => simp only [execInst, reduceCtorEq, FaultsAt]
  | be => simp only [execInst, reduceCtorEq, FaultsAt]
  | ldx size =>
      simp only [execInst, FaultsAt]
      split
      next hload => simp only [hload]
      next v hload => simp only [hload, reduceCtorEq]
  | st size =>
      simp only [execInst, FaultsAt]
      split
      next hstore => simp only [hstore]
      next mem hstore => simp only [hstore, reduceCtorEq]
  | stx size =>
      simp only [execInst, FaultsAt]
      split
      next hstore => simp only [hstore]
      next mem hstore => simp only [hstore, reduceCtorEq]
  | lddw =>
      -- The second half is there, `validate` has seen it.
      have hsecond : (program.insts[i + 1]?).map EbpfInst.opcode = some 0 := hok
      rcases Option.map_eq_some_iff.mp hsecond with ⟨second, hsecond, -⟩
      simp only [execInst, hpc, hsecond, FaultsAt, reduceCtorEq]
  | ja => simp only [execInst, reduceCtorEq, FaultsAt]
  | jmp is64 cond operand => simp only [execInst, reduceCtorEq, FaultsAt]
  | exit =>
      simp only [execInst, FaultsAt, iff_false]
      split
      all_goals simp only [reduceCtorEq, not_false_eq_true]
  | call =>
      simp only [execInst, FaultsAt]
      rcases hok with hext | hlocal
      · rw [if_pos hext.1, externalCall]
        simp only [hext.1, true_and]
        split
        next hnone => simp only [hnone]
        next result mem hsome =>
          simp only [hsome, reduceCtorEq, iff_false]
          split
          all_goals simp only [reduceCtorEq, not_false_eq_true]
      · have hsrc : inst.src ≠ 0 := by
          rw [hlocal.1]
          decide
        rw [if_neg hsrc, if_pos hlocal.1, localCall]
        simp only [hsrc, false_and, iff_false]
        split
        all_goals simp only [reduceCtorEq, not_false_eq_true]

/-- A round at the start of an instruction executes it. -/
theorem Validated.execStep_start (h : Validated program) (ext : Externals) (s : ExecState)
    (hstart : IsStart program.insts s.pc) :
    ∃ inst op, program.insts[s.pc]? = some inst ∧ Opcode.decode inst.opcode = some op ∧
      OpOk program.insts s.pc inst op ∧ execStep program ext s =
        execInst program ext ((enterFunction program s).jump 1) inst op := by
  have hinst := List.getElem?_eq_getElem hstart.1
  rcases h.insts s.pc _ hinst hstart with ⟨op, hop, hok⟩
  have hlt : ¬ program.numInsts ≤ s.pc := by
    rw [h.count]
    exact Nat.not_le_of_lt hstart.1
  refine ⟨_, op, hinst, hop, hok.checked, ?_⟩
  simp only [execStep, if_neg hlt, hinst, hop]

/-- A round elsewhere fails. -/
theorem Validated.execStep_astray (h : Validated program) (s : ExecState)
    (hstart : ¬ IsStart program.insts s.pc) : execStep program ext s = .failed := by
  rw [execStep]
  split
  next => rfl
  next hlt =>
    rw [h.count] at hlt
    have hinst := List.getElem?_eq_getElem (Nat.lt_of_not_le hlt)
    have hskip : skipAfter (program.insts.take s.pc) false = true := by
      by_contra hne
      exact hstart ⟨Nat.lt_of_not_le hlt, Bool.eq_false_iff.mpr hne⟩
    have hnone : Opcode.decode program.insts[s.pc].opcode = none := by
      rw [h.second_half s.pc _ hinst hskip]
      rfl
    simp only [hinst, hnone]

/-- A round fails past the last instruction, in the second half of a load and
    at a call too deep. -/
theorem Validated.execStep_failed (h : Validated program) (s : ExecState)
    (hinv : RunInv program s) :
    execStep program ext s = .failed ↔ s.pc = program.insts.length ∨
      CalledAt program s.pc ∧ ¬ IsStart program.insts s.pc ∨ TooDeep program s := by
  -- At the start of an instruction only its operation can fail, elsewhere
  -- nothing is executed.
  by_cases hstart : IsStart program.insts s.pc
  · rcases h.execStep_start ext s hstart with ⟨inst, op, hinst, hop, hok, hstep⟩
    rcases h.entered s inst hinst with ⟨-, -, -, hindex, -⟩
    have hcall := decode_call _ op (h.format inst (List.mem_of_getElem? hinst)).opcode hop
    have hdepth := hinv.depth
    rw [hstep, execInst_failed _ s.pc inst op hok, hindex]
    refine ⟨fun hdeep => Or.inr (Or.inr ⟨inst, hinst, hcall.mpr hdeep.1, hdeep.2.1, ?_⟩), ?_⟩
    · exact le_antisymm hdepth hdeep.2.2
    · rintro (hend | ⟨-, hno⟩ | ⟨inst', hinst', hopcode, hsrc, hframes⟩)
      · exact absurd hstart.1 (by rw [hend]; exact lt_irrefl _)
      · exact absurd hstart hno
      · rw [hinst, Option.some.injEq] at hinst'
        subst hinst'
        exact ⟨hcall.mp hopcode, hsrc, hframes.ge⟩
  · refine iff_of_true (h.execStep_astray s hstart) ?_
    rcases hinv.pc with (hend | hland) | hcalled
    · exact Or.inl hend
    · exact absurd hland hstart
    · exact Or.inr (Or.inl ⟨hcalled, hstart⟩)

theorem faultsAt_congr {s s' : ExecState} (hregs : s'.regs = s.regs) (hmem : s'.mem = s.mem)
    (inst : EbpfInst) (op : Opcode) : FaultsAt ext s' inst op ↔ FaultsAt ext s inst op := by
  cases op with
  | _ => simp only [FaultsAt, hregs, hmem]

/-- A round crashes only where memory is touched that is not there. -/
theorem Validated.execStep_crashed (h : Validated program) (s : ExecState) :
    execStep program ext s = .crashed ↔ Faults program ext s := by
  by_cases hstart : IsStart program.insts s.pc
  · rcases h.execStep_start ext s hstart with ⟨inst, op, hinst, hop, hok, hstep⟩
    rcases h.entered s inst hinst with ⟨hpc, hregs, hmem, -, -⟩
    rw [hstep, execInst_crashed _ s.pc hpc inst op hok, faultsAt_congr hregs hmem]
    refine ⟨fun hfault => ⟨inst, op, hinst, hop, hfault⟩, ?_⟩
    rintro ⟨inst', op', hinst', hop', hfault⟩
    rw [hinst, Option.some.injEq] at hinst'
    subst hinst'
    rw [hop, Option.some.injEq] at hop'
    subst hop'
    exact hfault
  · rw [h.execStep_astray s hstart]
    refine iff_of_false (by simp only [reduceCtorEq, not_false_eq_true]) ?_
    rintro ⟨inst, op, hinst, hop, -⟩
    exact hstart (h.start_of_decodes s.pc inst op hinst hop)

end Runs

end UniBPF
