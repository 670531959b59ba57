import UniBPF.Core.Exec
import UniBPF.Lib.Steps
import UniBPF.Theory.Reconfigure
import Mathlib.Data.Set.BooleanAlgebra
import Mathlib.Order.CompletePartialOrder

/-!
# Stack Frames of Local Calls

A local call is meant to give the callee a stack of its own: the frame
pointer goes down by what the caller uses, so what the callee stores below it
is out of reach of the windows of all active callers, and the return takes
the pointer up again.

How far it goes down is looked up in the stack usage table. An entry that was
never calculated counts for the whole stack. In the machines of this system
nobody calculates, but validation marks every entry it passes as calculated
and leaves the zero that was there, so a call does not move the frame pointer
at all and the callee works in the window of its caller.

A run is tracked by the local calls that have not returned. Each remembers
the two frame pointers, the memory it found, and whether all that was stored
since went to the window of the function that was running.

## Main definitions

* `stackWindow`: The bytes below a frame pointer.
* `Activation`, `Tracked`, `trackedStep`: A run with its active calls.
* `FramesKept`: What a call and a return ought to do.
* `CallsLocal`: The next instruction is a local call that is made.
* `NoUsage`: No function has a stack usage.

## Theorems

* `execStep_running`: What a step that goes on consists of.
* `execInst_frames`: Only a local call writes frames or goes deeper.
* `load_usage`: No function of a loaded program has a stack usage.
* `execStep_call`: A local call does not move the frame pointer.
* `call_overlaps`: The first one puts the callee in the window of its caller.
* `frames_kept_iff`: The frames are kept exactly in the runs that make no
  local call.
-/

namespace UniBPF

/-- The `size` bytes below a frame pointer. -/
def stackWindow (size : Nat) (fp : Word) : Set Word :=
  {a | 1 ≤ (fp - a).toNat ∧ (fp - a).toNat ≤ size}

/-- A local call that has not returned. -/
structure Activation where
  callerPointer : Word
  calleePointer : Word
  entryMemory : Memory
  /-- Whatever was stored since, the function that was running stored in its
      own window. -/
  confined : Prop

/-- A run with its active calls, the running one first. -/
structure Tracked where
  state : ExecState
  active : List Activation

/-- The step to `s` changes memory in the window of the running function
    only. -/
def Tracked.storesInWindow (size : Nat) (t : Tracked) (s : ExecState) : Prop :=
  ∀ a, s.mem a ≠ t.state.mem a →
    ∃ act, t.active.head? = some act ∧ a ∈ stackWindow size act.calleePointer

/-- The record after a step to `s`. A call is seen by the frames it takes, a
    return by those it gives back. -/
def Tracked.next (size : Nat) (t : Tracked) (s : ExecState) : Tracked :=
  let active := t.active.map fun act =>
    { act with confined := act.confined ∧ t.storesInWindow size s }
  if t.state.frameIndex < s.frameIndex then
    ⟨s, ⟨t.state.regs 10, s.regs 10, s.mem, True⟩ :: active⟩
  else if s.frameIndex < t.state.frameIndex then ⟨s, active.tail⟩
  else ⟨s, active⟩

@[simp] theorem Tracked.next_state (size : Nat) (t : Tracked) (s : ExecState) :
    (t.next size s).state = s := by
  simp only [Tracked.next]
  split
  · rfl
  · split <;> rfl

/-- One step of a run that is tracked. -/
def trackedStep (program : ProgramView) (ext : Externals) (size : Nat) (t : Tracked) (_ : Unit) :
    Option Tracked :=
  match execStep program ext t.state with
  | .running s => some (t.next size s)
  | _ => none

/-- What local calls promise, for a step of a run. -/
structure FramesKept (program : ProgramView) (ext : Externals) (size : Nat) (stackEnd : Word)
    (t : Tracked) (e : Unit) : Prop where
  /-- The window of a callee is in the program stack and apart from those of
      all active callers. -/
  separate : ∀ t' callee callers, trackedStep program ext size t e = some t' →
    t.state.frameIndex < t'.state.frameIndex → t'.active = callee :: callers →
    stackWindow size callee.calleePointer ⊆ stackWindow ebpfStackSize stackEnd ∧
      ∀ act ∈ t'.active,
        Disjoint (stackWindow size callee.calleePointer) (stackWindow size act.callerPointer)
  /-- A return restores the frame pointer, and the windows of the callers are
      as the callee found them if it kept to its own. -/
  restored : ∀ t' callee callers, trackedStep program ext size t e = some t' →
    t'.state.frameIndex < t.state.frameIndex → t.active = callee :: callers →
    t'.state.regs 10 = callee.callerPointer ∧
      (callee.confined → ∀ act ∈ t.active, ∀ a ∈ stackWindow size act.callerPointer,
        t'.state.mem a = callee.entryMemory a)

/-- The next instruction is a local call, and there is a frame left for it. -/
def CallsLocal (program : ProgramView) (s : ExecState) : Prop :=
  s.pc < program.numInsts ∧ s.frameIndex < maxCallDepth ∧
    ∃ inst, program.insts[s.pc]? = some inst ∧ Opcode.decode inst.opcode = some .call ∧
      inst.src = 1

/-- The stack usage of every function is zero. -/
def NoUsage (program : ProgramView) : Prop :=
  ∀ pc usage : Nat, program.stackUsage[pc]? = some (some usage) → usage = 0

section Step

variable (program : ProgramView) (ext : Externals)

/-- A step that goes on fetched an instruction it knows. -/
theorem execStep_running (s s' : ExecState) (h : execStep program ext s = .running s') :
    ∃ inst op, s.pc < program.numInsts ∧ program.insts[s.pc]? = some inst ∧
      Opcode.decode inst.opcode = some op ∧
      execInst program ext ((enterFunction program s).jump 1) inst op = .running s' := by
  unfold execStep at h
  split at h
  · exact absurd h (by simp only [reduceCtorEq, not_false_eq_true])
  · rename_i hpc
    cases hinst : program.insts[s.pc]? with
    | none =>
        rw [hinst] at h
        exact absurd h (by simp only [reduceCtorEq, not_false_eq_true])
    | some inst =>
        rw [hinst] at h
        cases hop : Opcode.decode inst.opcode with
        | none =>
            simp only [hop] at h
            exact absurd h (by simp only [reduceCtorEq, not_false_eq_true])
        | some op =>
            simp only [hop] at h
            exact ⟨inst, op, Nat.lt_of_not_le hpc, rfl, hop, h⟩

/-- Entering a function writes the stack usage of the current frame. -/
theorem enterFunction_fields (s : ExecState) :
    (enterFunction program s).pc = s.pc ∧ (enterFunction program s).regs = s.regs ∧
      (enterFunction program s).frameIndex = s.frameIndex := by
  unfold enterFunction
  split
  · split <;> exact ⟨rfl, rfl, rfl⟩
  · exact ⟨rfl, rfl, rfl⟩

/-- Where the table has no usage, a frame gets none. -/
theorem enterFunction_usage (s : ExecState) (hprogram : NoUsage program)
    (hs : ∀ i, (s.frames i).stackUsage = 0) (i : Nat) :
    ((enterFunction program s).frames i).stackUsage = 0 := by
  unfold enterFunction
  split
  · rename_i usage husage
    split
    · by_cases hi : i = s.frameIndex
      · rw [hi]
        simp only [ExecState.setFrame, Function.update_self]
        exact hprogram s.pc usage husage
      · simp only [ExecState.setFrame, Function.update_of_ne hi, hs]
    · exact hs i
  · exact hs i

/-- Whatever comes next works on the same frames, and no deeper. -/
def KeepsFrames (s : ExecState) : ExecResult → Prop
  | .running s' => s'.frames = s.frames ∧ s'.frameIndex ≤ s.frameIndex
  | _ => True

/-- A helper gets the memory and gives back a result. -/
theorem externalCall_frames (s : ExecState) (imm : Int) :
    KeepsFrames s (externalCall program ext s imm) := by
  unfold externalCall
  split
  · exact trivial
  · split
    · exact trivial
    · exact ⟨rfl, le_refl _⟩

/-- Only a local call writes frames, and only it goes deeper. -/
theorem execInst_frames (s : ExecState) (inst : EbpfInst) (op : Opcode)
    (hlocal : ¬ (op = .call ∧ inst.src = 1)) : KeepsFrames s (execInst program ext s inst op) := by
  cases op with
  | alu is64 op operand => exact ⟨rfl, le_refl _⟩
  | le => exact ⟨rfl, le_refl _⟩
  | be => exact ⟨rfl, le_refl _⟩
  | ja => exact ⟨rfl, le_refl _⟩
  | ldx size =>
      simp only [execInst]
      split
      · exact trivial
      · exact ⟨rfl, le_refl _⟩
  | st size =>
      simp only [execInst]
      split
      · exact trivial
      · exact ⟨rfl, le_refl _⟩
  | stx size =>
      simp only [execInst]
      split
      · exact trivial
      · exact ⟨rfl, le_refl _⟩
  | lddw =>
      simp only [execInst]
      split
      · exact trivial
      · exact ⟨rfl, le_refl _⟩
  | jmp is64 cond operand =>
      simp only [execInst]
      split <;> exact ⟨rfl, le_refl _⟩
  | exit =>
      simp only [execInst]
      split
      · exact ⟨rfl, Nat.sub_le _ _⟩
      · exact trivial
  | call =>
      -- Any other source makes it a call of a helper.
      have hsrc : ¬ inst.src = 1 := fun hsrc => hlocal ⟨rfl, hsrc⟩
      simp only [execInst, if_neg hsrc]
      split
      · exact externalCall_frames program ext s inst.imm
      · split
        · exact trivial
        · exact ⟨rfl, le_refl _⟩

/-- A step that is no local call, where the table has no usage. -/
theorem execStep_frames (s s' : ExecState) (hprogram : NoUsage program)
    (hs : ∀ i, (s.frames i).stackUsage = 0) (hlocal : ¬ CallsLocal program s)
    (hdepth : s.frameIndex < maxCallDepth) (h : execStep program ext s = .running s') :
    (∀ i, (s'.frames i).stackUsage = 0) ∧ s'.frameIndex ≤ s.frameIndex := by
  rcases execStep_running program ext s s' h with ⟨inst, op, hpc, hinst, hop, hexec⟩
  have hcall : ¬ (op = .call ∧ inst.src = 1) := by
    rintro ⟨rfl, hsrc⟩
    exact hlocal ⟨hpc, hdepth, inst, hinst, hop, hsrc⟩
  -- Besides the instruction, only entering a function touches a frame.
  have hkept := execInst_frames program ext ((enterFunction program s).jump 1) inst op hcall
  rw [hexec] at hkept
  rcases hkept with ⟨hframes, hindex⟩
  refine ⟨?_, ?_⟩
  · intro i
    rw [hframes]
    exact enterFunction_usage program s hprogram hs i
  · exact (enterFunction_fields program s).2.2 ▸ hindex

/-- A local call that is made takes a frame and leaves the frame pointer where
    it was. -/
theorem execStep_call (s : ExecState) (hprogram : NoUsage program)
    (hs : ∀ i, (s.frames i).stackUsage = 0) (hlocal : CallsLocal program s) :
    ∃ s', execStep program ext s = .running s' ∧ s'.frameIndex = s.frameIndex + 1 ∧
      s'.regs 10 = s.regs 10 := by
  rcases hlocal with ⟨hpc, hdepth, inst, hinst, hop, hsrc⟩
  rcases enterFunction_fields program s with ⟨-, hregs, hindex⟩
  have husage := enterFunction_usage program s hprogram hs s.frameIndex
  have hsrc' : ¬ inst.src = 0 := by
    rw [hsrc]
    decide
  have hdepth' : ¬ maxCallDepth ≤ ((enterFunction program s).jump 1).frameIndex := by
    simp only [ExecState.jump, hindex]
    exact Nat.not_le.mpr hdepth
  simp only [execStep, if_neg (Nat.not_le.mpr hpc), hinst, hop, execInst, if_neg hsrc',
    if_pos hsrc, localCall, if_neg hdepth']
  refine ⟨_, rfl, ?_, ?_⟩
  · simp only [ExecState.jump, ExecState.setReg, hindex]
  -- The frame pointer goes down by the usage in the caller's frame.
  · simp only [ExecState.jump, ExecState.setReg, Function.update_self, hregs, hindex, husage,
      BitVec.sub_zero]

end Step

/-- A window that is not empty has the byte right below the frame pointer. -/
theorem below_mem_stackWindow (size : Nat) (fp : Word) (h : 0 < size) :
    fp - 1 ∈ stackWindow size fp := by
  have hone : (fp - (fp - 1)).toNat = 1 := by
    bv_omega
  refine ⟨?_, ?_⟩
  · rw [hone]
  · rw [hone]
    exact h

/-- No function of a loaded program has a stack usage. -/
theorem load_usage (cls : ElementClass) (base : Addr) (code : Bytes) (program : ProgramView)
    (hload : (ubpfLoad (initUbpfVm cls) base code).1 = none)
    (hview : (ubpfLoad (initUbpfVm cls) base code).2.view = some program) : NoUsage program := by
  intro pc usage h
  rw [ubpfLoad_program (initUbpfVm cls) base code (initUbpfVm_clean cls) hload,
    Option.some.injEq] at hview
  rw [← hview] at h
  -- A start of a function was marked as calculated, and what was calculated is zero.
  simp only [programOf, List.getElem?_map, Option.map_eq_some_iff] at h
  rcases h with ⟨start, -, h⟩
  split at h
  · exact (Option.some.inj h).symm
  · exact absurd h (by simp only [reduceCtorEq, not_false_eq_true])

section Run

variable (program : ProgramView) (ext : Externals) (size : Nat) (stackEnd : Word)

/-- Nothing was called yet. -/
structure Outermost (t : Tracked) : Prop where
  active : t.active = []
  index : t.state.frameIndex = 0
  usage : ∀ i, (t.state.frames i).stackUsage = 0

theorem trackedStep_some (t t' : Tracked) (h : trackedStep program ext size t () = some t') :
    ∃ s, execStep program ext t.state = .running s ∧ t' = t.next size s := by
  unfold trackedStep at h
  cases hexec : execStep program ext t.state with
  | running s =>
      rw [hexec] at h
      exact ⟨s, rfl, (Option.some.inj h).symm⟩
  | returned value =>
      rw [hexec] at h
      exact absurd h (by simp only [reduceCtorEq, not_false_eq_true])
  | failed =>
      rw [hexec] at h
      exact absurd h (by simp only [reduceCtorEq, not_false_eq_true])
  | crashed =>
      rw [hexec] at h
      exact absurd h (by simp only [reduceCtorEq, not_false_eq_true])

/-- The first local call of a run puts the callee in the window of its
    caller. -/
theorem call_overlaps (t : Tracked) (hprogram : NoUsage program)
    (hsize : 0 < size) (ht : Outermost t) (hlocal : CallsLocal program t.state) :
    ¬ FramesKept program ext size stackEnd t () := by
  intro hkept
  rcases execStep_call program ext t.state hprogram ht.usage hlocal with
    ⟨s, hexec, hindex, hpointer⟩
  have hstep : trackedStep program ext size t () = some (t.next size s) := by
    simp only [trackedStep, hexec]
  have hdeeper : t.state.frameIndex < s.frameIndex := by
    rw [hindex]
    exact Nat.lt_succ_self _
  have hactive : (t.next size s).active = [⟨t.state.regs 10, s.regs 10, s.mem, True⟩] := by
    simp only [Tracked.next, if_pos hdeeper, ht.active, List.map_nil]
  have hdisjoint := (hkept.separate _ _ _ hstep (by rwa [Tracked.next_state]) hactive).2
    ⟨t.state.regs 10, s.regs 10, s.mem, True⟩ (by rw [hactive]; exact List.mem_singleton_self _)
  -- Both windows are those of one frame pointer.
  simp only [hpointer] at hdisjoint
  exact Set.disjoint_left.mp hdisjoint (below_mem_stackWindow size _ hsize)
    (below_mem_stackWindow size _ hsize)

/-- A step that is no local call, where none is active. -/
theorem outermost_step (t t' : Tracked) (hprogram : NoUsage program)
    (ht : Outermost t) (hlocal : ¬ CallsLocal program t.state)
    (h : trackedStep program ext size t () = some t') : Outermost t' := by
  rcases trackedStep_some program ext size t t' h with ⟨s, hexec, ht'⟩
  have hdepth : t.state.frameIndex < maxCallDepth := by
    rw [ht.index]
    decide
  rcases execStep_frames program ext t.state s hprogram ht.usage hlocal hdepth hexec with
    ⟨husage, hindex⟩
  rw [ht.index, Nat.le_zero] at hindex
  rw [ht']
  refine ⟨?_, ?_, ?_⟩
  · simp only [Tracked.next, hindex, ht.index, lt_self_iff_false, if_false, ht.active,
      List.map_nil]
  · rw [Tracked.next_state, hindex]
  · rw [Tracked.next_state]
    exact husage

/-- Without a call there is nothing to keep. -/
theorem outermost_kept (t : Tracked) (hprogram : NoUsage program)
    (ht : Outermost t) (hlocal : ¬ CallsLocal program t.state) :
    FramesKept program ext size stackEnd t () := by
  refine ⟨?_, ?_⟩
  · intro t' callee callers hstep hdeeper _
    have ht' := outermost_step program ext size t t' hprogram ht hlocal hstep
    rw [ht.index, ht'.index] at hdeeper
    exact absurd hdeeper (lt_irrefl 0)
  · intro t' callee callers hstep hhigher _
    rw [ht.index] at hhigher
    exact absurd hhigher (Nat.not_lt_zero _)

end Run

/-- In every run of every program the machine accepts, a callee has a window of
    its own, apart from those of its callers, exactly as long as no local call
    is made. -/
theorem frames_kept_iff (cls : ElementClass) (base : Addr) (code : Bytes) (program : ProgramView)
    (ext : Externals) (size : Nat) (junk : Nat → Word) (mem : Memory)
    (packet packetLen stackStart : Word) (steps : List Unit) (hsize : 0 < size)
    (hload : (ubpfLoad (initUbpfVm cls) base code).1 = none)
    (hview : (ubpfLoad (initUbpfVm cls) base code).2.view = some program) :
    Steps.Along (trackedStep program ext size)
        (FramesKept program ext size (stackStart + BitVec.ofNat 64 ebpfStackSize))
        ⟨execStart junk mem packet packetLen stackStart ebpfStackSize, []⟩ steps ↔
      Steps.Along (trackedStep program ext size) (fun t _ => ¬ CallsLocal program t.state)
        ⟨execStart junk mem packet packetLen stackStart ebpfStackSize, []⟩ steps := by
  have hprogram := load_usage cls base code program hload hview
  -- The invariant is that nothing was called: the first call breaks both sides.
  refine Steps.along_iff _ _ _ Outermost ?_ ?_ steps _ ⟨rfl, rfl, fun _ => rfl⟩
  · intro t _ ht
    constructor
    · intro hkept hlocal
      exact call_overlaps program ext size _ t hprogram hsize ht hlocal hkept
    · intro hlocal
      exact outermost_kept program ext size _ t hprogram ht hlocal
  · intro t _ t' ht hkept hstep
    have hlocal : ¬ CallsLocal program t.state := fun hlocal =>
      call_overlaps program ext size _ t hprogram hsize ht hlocal hkept
    exact outermost_step program ext size t t' hprogram ht hlocal hstep

/-- `r0 = 0; exit`. -/
def plainCode : Bytes :=
  [0xb7, 0, 0, 0, 0, 0, 0, 0, 0x95, 0, 0, 0, 0, 0, 0, 0]

theorem frames_kept_plain :
    (ubpfLoad (initUbpfVm .bpfilter) 0 plainCode).1 = none ∧
      Steps.Along (trackedStep (programOf (initUbpfVm .bpfilter) plainCode) (fun _ _ _ => none) 512)
        (FramesKept (programOf (initUbpfVm .bpfilter) plainCode) (fun _ _ _ => none) 512
          (0x1000 + BitVec.ofNat 64 ebpfStackSize))
        ⟨execStart (fun _ => 0) (fun _ => none) 0 0 0x1000 ebpfStackSize, []⟩ [()] := by
  have hload : (ubpfLoad (initUbpfVm .bpfilter) 0 plainCode).1 = none := by decide +kernel
  refine ⟨hload, (frames_kept_iff .bpfilter 0 plainCode _ _ 512 _ _ 0 0 0x1000 [()] (by decide)
    hload (ubpfLoad_program _ _ _ (initUbpfVm_clean _) hload)).mpr ⟨?_, fun _ _ => trivial⟩⟩
  rintro ⟨-, -, inst, hinst, -, hsrc⟩
  have hfirst : (programOf (initUbpfVm .bpfilter) plainCode).insts[0]?
      = some ⟨0xb7, 0, 0, 0, 0⟩ := by
    decide +kernel
  have hinst' : inst = ⟨0xb7, 0, 0, 0, 0⟩ := Option.some.inj (hinst.symm.trans hfirst)
  rw [hinst'] at hsrc
  exact absurd hsrc (by decide)

/-- The program stores 1 in its window and calls a function that stores 2 in
    the window it takes for its own; then it returns what it reads back. -/
def overwritingCode : Bytes :=
  [0x7a, 10, 0xf8, 0xff, 1, 0, 0, 0,
   0x85, 0x10, 0, 0, 2, 0, 0, 0,
   0x79, 0xa0, 0xf8, 0xff, 0, 0, 0, 0,
   0x95, 0, 0, 0, 0, 0, 0, 0,
   0x7a, 10, 0xf8, 0xff, 2, 0, 0, 0,
   0x95, 0, 0, 0, 0, 0, 0, 0]

def overwritingProgram : ProgramView :=
  programOf (initUbpfVm .bpfilter) overwritingCode

/-- The start of its run, on zeroed memory with the stack at `0x1000`. -/
def overwritingStart : ExecState :=
  execStart (fun _ => 0) (fun _ => some 0) 0 0 0x1000 ebpfStackSize

/-- The first instruction is the store, and then comes the call. -/
theorem overwriting_first : ∃ s, execStep overwritingProgram (fun _ _ _ => none) overwritingStart
    = .running s ∧ s.pc = 1 ∧ s.frameIndex = 0 :=
  ⟨_, rfl, rfl, rfl⟩

theorem callee_overwrites_caller :
    (ubpfLoad (initUbpfVm .bpfilter) 0 overwritingCode).1 = none ∧
      (ubpfLoad (initUbpfVm .bpfilter) 0 overwritingCode).2.view = some overwritingProgram ∧
      ¬ Steps.Along (trackedStep overwritingProgram (fun _ _ _ => none) 8)
        (FramesKept overwritingProgram (fun _ _ _ => none) 8
          (0x1000 + BitVec.ofNat 64 ebpfStackSize)) ⟨overwritingStart, []⟩ [(), ()] ∧
      (match execFor overwritingProgram (fun _ _ _ => none) 6 overwritingStart with
        | .returned value => value = 2
        | _ => False) := by
  have hload : (ubpfLoad (initUbpfVm .bpfilter) 0 overwritingCode).1 = none := by decide +kernel
  have hview := ubpfLoad_program _ _ _ (initUbpfVm_clean .bpfilter) hload
  have hprogram := load_usage _ _ _ _ hload hview
  refine ⟨hload, hview, ?_, rfl⟩
  rintro ⟨-, hrest⟩
  rcases overwriting_first with ⟨s, hexec, hpc, hindex⟩
  have hfirst : ¬ CallsLocal overwritingProgram overwritingStart := by
    rintro ⟨-, -, inst, hinst, hop, -⟩
    have hstore : overwritingProgram.insts[0]? = some ⟨0x7a, 10, 0, -8, 1⟩ := by decide +kernel
    rw [Option.some.inj (hinst.symm.trans hstore)] at hop
    exact absurd hop (by decide)
  have hstep : trackedStep overwritingProgram (fun _ _ _ => none) 8 ⟨overwritingStart, []⟩ ()
      = some (Tracked.next 8 ⟨overwritingStart, []⟩ s) := by
    simp only [trackedStep, hexec]
  have houter := outermost_step overwritingProgram _ 8 _ _ hprogram ⟨rfl, rfl, fun _ => rfl⟩ hfirst
    hstep
  refine call_overlaps overwritingProgram _ 8 _ _ hprogram (by decide) houter ?_
    (hrest _ hstep).1
  rw [Tracked.next_state]
  refine ⟨?_, ?_, ⟨0x85, 0, 1, 0, 2⟩, ?_, by decide, rfl⟩
  · rw [hpc]
    decide +kernel
  · rw [hindex]
    decide
  · rw [hpc]
    decide +kernel

end UniBPF
