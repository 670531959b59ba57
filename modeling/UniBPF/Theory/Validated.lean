import UniBPF.Theory.StackFrames
import UniBPF.Theory.Translation

/-!
# What Validation Makes Sure Of

`Validated` is what is known of a program that `ubpf_load` has taken, said of
the program as it is run: of every instruction that is not the second half of
a load, what the switch of `validate` has looked at.

A jump never goes to a second half, since those have the opcode 0 and a jump
to such a place is turned down. A local call is only checked to be in bounds.

## Main definitions

* `InstOk`: What is checked of one instruction.
* `Validated`: A program that was loaded.

## Theorems

* `load_validated`: A program that is loaded passed the checks.
* `Validated.start_of_decodes`: What has an operation is a first half.
-/

namespace UniBPF

open LittleEndian

/-- What the check of a jump gives: it stays in the program and does not go to
    the second half of a load. -/
structure JumpOk (insts : List EbpfInst) (i : Nat) (inst : EbpfInst) : Prop where
  bounds : 0 ≤ (i : Int) + 1 + inst.offset ∧ (i : Int) + 1 + inst.offset < insts.length
  middle : (insts[((i : Int) + 1 + inst.offset).toNat]?).map EbpfInst.opcode ≠ some 0

/-- What the switch of `validate` has looked at. -/
def OpOk (insts : List EbpfInst) (i : Nat) (inst : EbpfInst) (op : Opcode) : Prop :=
  match op with
  | .le => inst.imm = 16 ∨ inst.imm = 32 ∨ inst.imm = 64
  | .be => inst.imm = 16 ∨ inst.imm = 32 ∨ inst.imm = 64
  | .lddw => (insts[i + 1]?).map EbpfInst.opcode = some 0
  | .ja => JumpOk insts i inst
  | .jmp .. => JumpOk insts i inst
  | .call => (inst.src = 0 ∧ 0 ≤ inst.imm ∧ inst.imm < maxExtFuncs) ∨
      (inst.src = 1 ∧ 0 ≤ (i : Int) + (inst.imm + 1) ∧ (i : Int) + (inst.imm + 1) < insts.length)
  | _ => True

structure InstOk (insts : List EbpfInst) (i : Nat) (inst : EbpfInst) (op : Opcode) : Prop where
  src : inst.src ≤ 10
  dst : inst.dst ≤ 10
  checked : OpOk insts i inst op

/-- What the format of an instruction gives. -/
structure InRange (inst : EbpfInst) : Prop where
  opcode : inst.opcode < 256
  offset : -2 ^ 15 ≤ inst.offset ∧ inst.offset < 2 ^ 15
  imm : -2 ^ 31 ≤ inst.imm ∧ inst.imm < 2 ^ 31

/-- A program that was loaded. -/
structure Validated (program : ProgramView) : Prop where
  count : program.numInsts = program.insts.length
  few : program.insts.length < maxInsts
  usage : NoUsage program
  format : ∀ inst ∈ program.insts, InRange inst
  insts : ∀ i inst, program.insts[i]? = some inst → IsStart program.insts i →
    ∃ op, Opcode.decode inst.opcode = some op ∧ InstOk program.insts i inst op
  called : ∀ i inst target, program.insts[i]? = some inst →
    localCallTarget i inst = some target → target < program.insts.length →
    program.intFuncs[target]? = some true

/-! ## One instruction -/

theorem inRange_ofWord (word : Nat) : InRange (EbpfInst.ofWord word) := by
  refine ⟨?_, ?_, ?_⟩
  · exact Nat.mod_lt _ (by decide)
  · simp only [EbpfInst.ofWord, toSigned]
    split
    all_goals omega
  · simp only [EbpfInst.ofWord, toSigned]
    split
    all_goals omega

theorem validateJump_ok (insts : List EbpfInst) (i : Nat) (inst : EbpfInst)
    (h : validateJump insts i inst = none) : JumpOk insts i inst := by
  simp only [validateJump] at h
  split at h
  next => exact absurd h (by simp only [reduceCtorEq, not_false_eq_true])
  next =>
    split at h
    next => exact absurd h (by simp only [reduceCtorEq, not_false_eq_true])
    next hbounds =>
      split at h
      next => exact absurd h (by simp only [reduceCtorEq, not_false_eq_true])
      next hmiddle => exact ⟨by omega, hmiddle⟩

theorem validateCall_ok (vm : Vm) (insts : List EbpfInst) (i : Nat) (inst : EbpfInst)
    (h : (validateCall vm insts.length i inst).1 = none) : OpOk insts i inst .call := by
  simp only [validateCall] at h
  split at h
  next hext =>
    split at h
    next => exact absurd h (by simp only [reduceCtorEq, not_false_eq_true])
    next hbounds => exact Or.inl ⟨hext, by omega, by omega⟩
  next =>
    split at h
    next hlocal =>
      split at h
      next => exact absurd h (by simp only [reduceCtorEq, not_false_eq_true])
      next hbounds => exact Or.inr ⟨hlocal, by omega, by omega⟩
    next =>
      split at h
      all_goals exact absurd h (by simp only [reduceCtorEq, not_false_eq_true])

theorem validateOp_ok (vm : Vm) (insts : List EbpfInst) (i : Nat) (inst : EbpfInst) (op : Opcode)
    (h : (validateOp vm insts i inst op).1 = none) : OpOk insts i inst op := by
  have horder : (if inst.imm ≠ 16 ∧ inst.imm ≠ 32 ∧ inst.imm ≠ 64 then
      (some LoadError.invalidEndianImmediate, vm) else (none, vm)).1 = none →
      inst.imm = 16 ∨ inst.imm = 32 ∨ inst.imm = 64 := by
    intro h
    split at h
    next => exact absurd h (by simp only [reduceCtorEq, not_false_eq_true])
    next himm => omega
  cases op with
  | le => exact horder h
  | be => exact horder h
  | lddw =>
      simp only [validateOp] at h
      split at h
      next => exact absurd h (by simp only [reduceCtorEq, not_false_eq_true])
      next =>
        split at h
        next => exact absurd h (by simp only [reduceCtorEq, not_false_eq_true])
        next hnext => exact not_not.mp hnext
  | ja => exact validateJump_ok insts i inst h
  | jmp is64 cond operand => exact validateJump_ok insts i inst h
  | call => exact validateCall_ok vm insts i inst h
  | alu is64 op operand => trivial
  | ldx size => trivial
  | st size => trivial
  | stx size => trivial
  | exit => trivial

theorem validateInst_ok (vm : Vm) (insts : List EbpfInst) (i : Nat) (inst : EbpfInst)
    (h : (validateInst vm insts i inst).1 = none) :
    ∃ op, Opcode.decode inst.opcode = some op ∧ InstOk insts i inst op := by
  simp only [validateInst] at h
  cases hdecode : Opcode.decode inst.opcode with
  | none =>
      rw [hdecode] at h
      exact absurd h (by simp only [reduceCtorEq, not_false_eq_true])
  | some op =>
      simp only [hdecode] at h
      have hop := validateOp_ok vm insts i inst op
      generalize validateOp vm insts i inst op = answer at h hop
      rcases answer with ⟨error, vm'⟩
      cases error with
      | some e => exact absurd h (by simp only [reduceCtorEq, not_false_eq_true])
      | none =>
          simp only at h
          split at h
          next => exact absurd h (by simp only [reduceCtorEq, not_false_eq_true])
          next hsrc =>
            split at h
            next => exact absurd h (by simp only [reduceCtorEq, not_false_eq_true])
            next hdst =>
              refine ⟨op, rfl, ⟨by omega, ?_, hop rfl⟩⟩
              by_cases hnine : 9 < inst.dst
              · exact le_of_eq (not_not.mp (fun hne => hdst ⟨hnine, fun hst => hne hst.2⟩))
              · omega

/-! ## The program -/

/-- The loop of `validate` looks at every first half. -/
theorem validateLoop_insts (insts rest : List EbpfInst) (vm : Vm) (i : Nat) (skip : Bool)
    (h : (validateLoop insts vm rest i skip).1 = none) (k : Nat) (inst : EbpfInst)
    (hk : rest[k]? = some inst) (hstart : skipAfter (rest.take k) skip = false) :
    ∃ vm', (validateInst vm' insts (i + k) inst).1 = none := by
  induction rest generalizing vm i skip k with
  | nil => exact absurd hk (by simp only [List.getElem?_nil, reduceCtorEq, not_false_eq_true])
  | cons first rest ih =>
      cases skip with
      | true =>
          cases k with
          | zero => exact absurd hstart (by simp only [List.take_zero, skipAfter, reduceCtorEq,
              not_false_eq_true])
          | succ k =>
              rcases ih vm (i + 1) false h k hk hstart with ⟨vm', hvm'⟩
              exact ⟨vm', by rw [show i + (k + 1) = i + 1 + k by omega]; exact hvm'⟩
      | false =>
          simp only [validateLoop] at h
          generalize hfirst : validateInst vm insts i first = answer at h
          rcases answer with ⟨error, vm'⟩
          cases error with
          | some e => exact absurd h (by simp only [reduceCtorEq, not_false_eq_true])
          | none =>
              cases k with
              | zero =>
                  have hinst : first = inst := Option.some.inj hk
                  rw [hinst] at hfirst
                  exact ⟨vm, by rw [Nat.add_zero, hfirst]⟩
              | succ k =>
                  rcases ih vm' (i + 1) _ h k hk hstart with ⟨vm'', hvm''⟩
                  exact ⟨vm'', by rw [show i + (k + 1) = i + 1 + k by omega]; exact hvm''⟩

theorem validate_insts (vm : Vm) (insts : List EbpfInst) (h : (validate vm insts).1 = none) :
    insts.length < maxInsts ∧ ∀ i inst, insts[i]? = some inst → IsStart insts i →
      ∃ op, Opcode.decode inst.opcode = some op ∧ InstOk insts i inst op := by
  simp only [validate] at h
  split at h
  next => exact absurd h (by simp only [reduceCtorEq, not_false_eq_true])
  next hfew =>
    refine ⟨by omega, fun i inst hinst hstart => ?_⟩
    generalize ubpfCalculateStackUsageForLocalFunc vm 0 = answer at h
    rcases answer with ⟨error, vm'⟩
    cases error with
    | some e => exact absurd h (by simp only [reduceCtorEq, not_false_eq_true])
    | none =>
        rcases validateLoop_insts insts insts vm' 0 false h i inst hinst hstart.2 with ⟨vm'', hvm''⟩
        rw [Nat.zero_add] at hvm''
        exact validateInst_ok vm'' insts i inst hvm''

theorem markLocalCalls_keeps (insts : List EbpfInst) (funcs : List Bool) (i pc : Nat)
    (h : funcs[pc]? = some true) : (markLocalCalls funcs insts i)[pc]? = some true := by
  induction insts generalizing funcs i with
  | nil => exact h
  | cons inst insts ih =>
      simp only [markLocalCalls]
      cases localCallTarget i inst with
      | none => exact ih funcs (i + 1) h
      | some target =>
          refine ih _ (i + 1) ?_
          rw [List.getElem?_set]
          split
          next htarget =>
            subst htarget
            rw [if_pos (List.getElem?_eq_some_iff.mp h).1]
          next => exact h

/-- The target of a local call is marked. -/
theorem markLocalCalls_marks (insts : List EbpfInst) (funcs : List Bool) (i k target : Nat)
    (inst : EbpfInst) (hk : insts[k]? = some inst)
    (hcall : localCallTarget (i + k) inst = some target) (htarget : target < funcs.length) :
    (markLocalCalls funcs insts i)[target]? = some true := by
  induction insts generalizing funcs i k with
  | nil => exact absurd hk (by simp only [List.getElem?_nil, reduceCtorEq, not_false_eq_true])
  | cons first insts ih =>
      simp only [markLocalCalls]
      cases k with
      | zero =>
          have hfirst : first = inst := Option.some.inj hk
          rw [Nat.add_zero] at hcall
          rw [hfirst, hcall]
          refine markLocalCalls_keeps insts _ (i + 1) target ?_
          rw [List.getElem?_set_self htarget]
      | succ k =>
          rw [show i + (k + 1) = i + 1 + k by omega] at hcall
          cases localCallTarget i first with
          | none => exact ih funcs (i + 1) k hk hcall htarget
          | some other =>
              refine ih _ (i + 1) k hk hcall ?_
              rw [List.length_set]
              exact htarget

/-- A program that is loaded passed the checks. -/
theorem load_validated (vm : Vm) (base : Addr) (code : Bytes) (program : ProgramView)
    (hclean : Clean vm) (hload : (ubpfLoad vm base code).1 = none)
    (hview : (ubpfLoad vm base code).2.view = some program) : Validated program := by
  rcases ubpfLoad_loaded vm base code hload with ⟨-, hvalid, -⟩
  rcases validate_insts vm _ hvalid with ⟨hfew, hinsts⟩
  rw [ubpfLoad_program vm base code hclean hload, Option.some.injEq] at hview
  subst hview
  refine ⟨?_, hfew, ?_, ?_, hinsts, ?_⟩
  · exact (List.length_map _).symm
  · intro pc usage husage
    rw [programOf, List.getElem?_map] at husage
    rcases Option.map_eq_some_iff.mp husage with ⟨pc', -, hpc'⟩
    split at hpc'
    next => exact (Option.some.inj hpc').symm
    next => exact absurd hpc' (by simp only [reduceCtorEq, not_false_eq_true])
  · intro inst hinst
    rcases List.mem_map.mp hinst with ⟨word, -, rfl⟩
    exact inRange_ofWord word
  · intro i inst target hinst hcall htarget
    refine markLocalCalls_marks _ _ 0 i target inst hinst (by rw [Nat.zero_add]; exact hcall) ?_
    rw [List.length_replicate]
    rw [programOf, List.length_map] at htarget
    exact htarget

/-! ## First halves -/

/-- What comes after a first half that is no load is a first half again. -/
theorem skipAfter_take (insts : List EbpfInst) (i : Nat) (inst : EbpfInst)
    (hinst : insts[i]? = some inst) :
    skipAfter (insts.take (i + 1)) false =
      (!skipAfter (insts.take i) false && inst.opcode == 0x18) := by
  rw [List.take_add_one, hinst, skipAfter_append]
  cases skipAfter (insts.take i) false with
  | true => rfl
  | false => rfl

/-- A second half has the opcode 0. -/
theorem Validated.second_half {program : ProgramView} (h : Validated program) (i : Nat)
    (inst : EbpfInst) (hinst : program.insts[i]? = some inst)
    (hskip : skipAfter (program.insts.take i) false = true) : inst.opcode = 0 := by
  cases i with
  | zero => exact absurd hskip (by simp only [List.take_zero, skipAfter, Bool.false_eq_true,
      not_false_eq_true])
  | succ i =>
      have hlt : i < program.insts.length := by
        have hsucc := (List.getElem?_eq_some_iff.mp hinst).1
        omega
      have hfirst : program.insts[i]? = some program.insts[i] := List.getElem?_eq_getElem hlt
      rw [skipAfter_take program.insts i _ hfirst, Bool.and_eq_true, Bool.not_eq_true',
        beq_iff_eq] at hskip
      rcases h.insts i _ hfirst ⟨hlt, hskip.1⟩ with ⟨op, hop, hok⟩
      have hlddw : op = .lddw := by
        rw [hskip.2] at hop
        exact (Option.some.inj hop).symm
      subst hlddw
      have hnext : (program.insts[i + 1]?).map EbpfInst.opcode = some 0 := hok.checked
      rw [hinst] at hnext
      exact Option.some.inj hnext

/-- What has an operation is a first half. -/
theorem Validated.start_of_decodes {program : ProgramView} (h : Validated program) (i : Nat)
    (inst : EbpfInst) (op : Opcode) (hinst : program.insts[i]? = some inst)
    (hop : Opcode.decode inst.opcode = some op) : IsStart program.insts i := by
  refine ⟨(List.getElem?_eq_some_iff.mp hinst).1, ?_⟩
  cases hskip : skipAfter (program.insts.take i) false with
  | false => rfl
  | true =>
      have hnone : Opcode.decode inst.opcode = none := by
        rw [h.second_half i inst hinst hskip]
        rfl
      rw [hnone] at hop
      exact absurd hop (by simp only [reduceCtorEq, not_false_eq_true])

/-- The opcode of a load of two halves. -/
theorem decode_lddw (n : Nat) (op : Opcode) (hn : n < 256) (h : Opcode.decode n = some op) :
    n = 0x18 ↔ op = .lddw := by
  have hall : ∀ i : Fin 256, Opcode.decode i = some .lddw ↔ i.val = 0x18 := by decide +kernel
  rw [← hall ⟨n, hn⟩, h, Option.some.injEq]

theorem decode_call (n : Nat) (op : Opcode) (hn : n < 256) (h : Opcode.decode n = some op) :
    n = 0x85 ↔ op = .call := by
  have hall : ∀ i : Fin 256, Opcode.decode i = some .call ↔ i.val = 0x85 := by decide +kernel
  rw [← hall ⟨n, hn⟩, h, Option.some.injEq]

end UniBPF
