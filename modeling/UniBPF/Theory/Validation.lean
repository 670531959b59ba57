import UniBPF.Core.Jit

/-!
# Validation and What It Leaves Behind

`validate` is run on a machine that may have seen other programs, and it marks
that machine. This module says what the marks can and cannot do.

Validation asks the machine for two things, whether a helper exists and
whether a stack usage is proper. So it is followed through its four functions
once, for any relation between two machines that these two questions respect
(`validate_sim`). Everything else is a choice of the relation: that validation
touches nothing but the stack usage table, that it keeps what is kept by one
entry, and that its answer does not depend on the table.

The last of these holds for the machines an element has. They have no
calculator of stack usage, so no entry is ever anything but zero (`Clean`),
and zero is proper.

A program that is accepted has all its functions marked, the entry point and
every target of a local call (`validate_starts`). The second half of a
double-word load is not looked at, but it is not a call either.

## Main definitions

* `SameSetup`: The part of a machine that is fixed after its setup.
* `OnlyUsage`: Two machines that differ in their stack usage tables alone.
* `Agree`: Two answers of validation, on related machines.
* `Clean`: No stack usage was ever calculated.

## Theorems

* `validate_sim`: Related machines get the same answer and stay related.
* `validate_frame`: Validation changes only the stack usage table.
* `validate_keeps`: What every entry keeps, validation keeps.
* `validate_twin`: The answer does not depend on the marks.
* `validateLoop_calls`: The targets of local calls are marked.
* `validate_starts`: Where a function starts, the usage is marked.
-/

namespace UniBPF

/-- The part of a machine that is fixed after its setup. -/
structure SameSetup (vm vm' : Vm) : Prop where
  jitterBufferSize : vm'.jitterBufferSize = vm.jitterBufferSize
  extFuncs : vm'.extFuncs = vm.extFuncs
  stackUsageCalculator : vm'.stackUsageCalculator = vm.stackUsageCalculator
  dispatcherValidate : vm'.dispatcherValidate = vm.dispatcherValidate
  unwind : vm'.unwindStackExtensionIndex = vm.unwindStackExtensionIndex
  pointerSecret : vm'.pointerSecret = vm.pointerSecret

theorem SameSetup.refl (vm : Vm) : SameSetup vm vm :=
  ⟨rfl, rfl, rfl, rfl, rfl, rfl⟩

theorem SameSetup.trans {a b c : Vm} (hab : SameSetup a b) (hbc : SameSetup b c) :
    SameSetup a c :=
  ⟨hbc.1.trans hab.1, hbc.2.trans hab.2, hbc.3.trans hab.3, hbc.4.trans hab.4,
    hbc.5.trans hab.5, hbc.6.trans hab.6⟩

/-- The two machines differ in their stack usage tables alone. -/
def OnlyUsage (vm vm' : Vm) : Prop :=
  vm' = { vm with localFuncStackUsage := vm'.localFuncStackUsage }

theorem OnlyUsage.refl (vm : Vm) : OnlyUsage vm vm := rfl

theorem OnlyUsage.trans {a b c : Vm} (hab : OnlyUsage a b) (hbc : OnlyUsage b c) :
    OnlyUsage a c := by
  unfold OnlyUsage at hab hbc ⊢
  rw [hbc, hab]

theorem OnlyUsage.setup {vm vm' : Vm} (h : OnlyUsage vm vm') : SameSetup vm vm' := by
  rw [h]
  exact ⟨rfl, rfl, rfl, rfl, rfl, rfl⟩

/-- The same answer, with machines that are related. -/
def Agree (T : Vm → Vm → Prop) (x y : Option LoadError × Vm) : Prop :=
  x.1 = y.1 ∧ T x.2 y.2

section Simulation

variable (T : Vm → Vm → Prop)
  (hext : ∀ vm vm' idx, T vm vm' → externalExists vm idx = externalExists vm' idx)
  (hcalc : ∀ vm vm' pc, T vm vm' → Agree T (ubpfCalculateStackUsageForLocalFunc vm pc)
    (ubpfCalculateStackUsageForLocalFunc vm' pc))

include hext hcalc

theorem validateCall_sim (vm vm' : Vm) (n i : Nat) (inst : EbpfInst) (h : T vm vm') :
    Agree T (validateCall vm n i inst) (validateCall vm' n i inst) := by
  unfold validateCall
  simp only [hext vm vm' inst.imm.toNat h]
  split
  · split
    · exact ⟨rfl, h⟩
    · split <;> exact ⟨rfl, h⟩
  · split
    · split
      · exact ⟨rfl, h⟩
      · exact hcalc vm vm' _ h
    · split <;> exact ⟨rfl, h⟩

theorem validateOp_sim (vm vm' : Vm) (insts : List EbpfInst) (i : Nat) (inst : EbpfInst)
    (op : Opcode) (h : T vm vm') :
    Agree T (validateOp vm insts i inst op) (validateOp vm' insts i inst op) := by
  unfold validateOp
  cases op with
  | call => exact validateCall_sim T hext hcalc vm vm' _ i inst h
  | le => simp only []; split <;> exact ⟨rfl, h⟩
  | be => simp only []; split <;> exact ⟨rfl, h⟩
  | lddw =>
      simp only []
      split
      · exact ⟨rfl, h⟩
      · split <;> exact ⟨rfl, h⟩
  | _ => exact ⟨rfl, h⟩

theorem validateInst_sim (vm vm' : Vm) (insts : List EbpfInst) (i : Nat) (inst : EbpfInst)
    (h : T vm vm') :
    Agree T (validateInst vm insts i inst) (validateInst vm' insts i inst) := by
  unfold validateInst
  cases Opcode.decode inst.opcode with
  | none => exact ⟨rfl, h⟩
  | some op =>
      have hop := validateOp_sim T hext hcalc vm vm' insts i inst op h
      simp only []
      -- The register checks after the switch hand the machine on as it is.
      generalize validateOp vm insts i inst op = answer at hop ⊢
      generalize validateOp vm' insts i inst op = answer' at hop ⊢
      rcases answer with ⟨error, vm₁⟩
      rcases answer' with ⟨error', vm₂⟩
      rcases hop with ⟨herror, hvm⟩
      simp only at herror hvm
      rw [← herror]
      cases error with
      | some e => exact ⟨rfl, hvm⟩
      | none =>
          simp only []
          split
          · exact ⟨rfl, hvm⟩
          · split <;> exact ⟨rfl, hvm⟩

theorem validateLoop_sim (insts rest : List EbpfInst) :
    ∀ (vm vm' : Vm) (i : Nat) (skip : Bool), T vm vm' →
      Agree T (validateLoop insts vm rest i skip) (validateLoop insts vm' rest i skip) := by
  induction rest with
  | nil => intro vm vm' i skip h; exact ⟨rfl, h⟩
  | cons inst rest ih =>
      intro vm vm' i skip h
      cases skip with
      | true => exact ih vm vm' (i + 1) false h
      | false =>
          have hinst := validateInst_sim T hext hcalc vm vm' insts i inst h
          simp only [validateLoop]
          generalize validateInst vm insts i inst = answer at hinst ⊢
          generalize validateInst vm' insts i inst = answer' at hinst ⊢
          rcases answer with ⟨error, vm₁⟩
          rcases answer' with ⟨error', vm₂⟩
          rcases hinst with ⟨herror, hvm⟩
          simp only at herror hvm
          rw [← herror]
          -- An error ends both loops, and otherwise both go on at the same place.
          cases error with
          | some e => exact ⟨rfl, hvm⟩
          | none => exact ih vm₁ vm₂ (i + 1) _ hvm

/-- Related machines get the same answer and stay related. -/
theorem validate_sim (vm vm' : Vm) (insts : List EbpfInst) (h : T vm vm') :
    Agree T (validate vm insts) (validate vm' insts) := by
  unfold validate
  split
  · exact ⟨rfl, h⟩
  · have hentry := hcalc vm vm' 0 h
    generalize ubpfCalculateStackUsageForLocalFunc vm 0 = answer at hentry ⊢
    generalize ubpfCalculateStackUsageForLocalFunc vm' 0 = answer' at hentry ⊢
    rcases answer with ⟨error, vm₁⟩
    rcases answer' with ⟨error', vm₂⟩
    rcases hentry with ⟨herror, hvm⟩
    simp only at herror hvm
    rw [← herror]
    cases error with
    | some e => exact ⟨rfl, hvm⟩
    | none => exact validateLoop_sim T hext hcalc insts insts vm₁ vm₂ 0 false hvm

end Simulation

section Keeping

variable (I : Vm → Prop)
  (hI : ∀ vm pc, I vm → I (ubpfCalculateStackUsageForLocalFunc vm pc).2)

include hI

-- An invariant is the simulation of a machine by itself.
theorem validateLoop_keeps (insts rest : List EbpfInst) (vm : Vm) (i : Nat) (skip : Bool)
    (h : I vm) : I (validateLoop insts vm rest i skip).2 := by
  have hsim := validateLoop_sim (fun a b => a = b ∧ I a) (fun a b idx hab => by rw [hab.1])
    (fun a b pc hab => ⟨by rw [hab.1], by rw [hab.1], hI a pc hab.2⟩) insts rest vm vm i skip
    ⟨rfl, h⟩
  exact hsim.2.2

/-- What every entry keeps, validation keeps. -/
theorem validate_keeps (vm : Vm) (insts : List EbpfInst) (h : I vm) : I (validate vm insts).2 := by
  have hsim := validate_sim (fun a b => a = b ∧ I a) (fun a b idx hab => by rw [hab.1])
    (fun a b pc hab => ⟨by rw [hab.1], by rw [hab.1], hI a pc hab.2⟩) vm vm insts ⟨rfl, h⟩
  exact hsim.2.2

end Keeping

/-- The machine after an entry was calculated, whatever the answer. -/
theorem calculate_vm (vm : Vm) (pc : Nat) :
    ∃ usage, (ubpfCalculateStackUsageForLocalFunc vm pc).2 = { vm with
      localFuncStackUsage := Function.update vm.localFuncStackUsage pc ⟨true, usage⟩ } := by
  unfold ubpfCalculateStackUsageForLocalFunc
  -- Both answers come with the same machine.
  simp only [apply_ite Prod.snd, ite_self]
  exact ⟨_, rfl⟩

/-- Validation changes only the stack usage table. -/
theorem validate_frame (vm : Vm) (insts : List EbpfInst) : OnlyUsage vm (validate vm insts).2 := by
  refine validate_keeps (OnlyUsage vm) ?_ vm insts (.refl vm)
  intro vm' pc hframe
  rcases calculate_vm vm' pc with ⟨usage, hvm⟩
  refine hframe.trans ?_
  rw [hvm]
  rfl

/-- A mark stays. -/
theorem marked_calculate (vm : Vm) (pc target : Nat)
    (h : (vm.localFuncStackUsage target).calculated = true) :
    ((ubpfCalculateStackUsageForLocalFunc vm pc).2.localFuncStackUsage target).calculated
      = true := by
  rcases calculate_vm vm pc with ⟨usage, hvm⟩
  rw [hvm]
  by_cases hpc : target = pc
  · simp only [hpc, Function.update_self]
  · simp only [Function.update_of_ne hpc, h]

theorem marked_self (vm : Vm) (pc : Nat) :
    ((ubpfCalculateStackUsageForLocalFunc vm pc).2.localFuncStackUsage pc).calculated = true := by
  rcases calculate_vm vm pc with ⟨usage, hvm⟩
  rw [hvm]
  simp only [Function.update_self]

/-- No stack usage was ever calculated: nobody was there to ask, and the
    entries are what they were at the start. -/
structure Clean (vm : Vm) : Prop where
  calculator : vm.stackUsageCalculator = none
  usage : ∀ pc, (vm.localFuncStackUsage pc).usage = 0

theorem calculate_clean (vm : Vm) (pc : Nat) (h : Clean vm) :
    ubpfCalculateStackUsageForLocalFunc vm pc = (none, { vm with
      localFuncStackUsage := Function.update vm.localFuncStackUsage pc ⟨true, 0⟩ }) := by
  simp only [ubpfCalculateStackUsageForLocalFunc, h.calculator, h.usage pc, Nat.zero_mod, ne_eq,
    not_true_eq_false, if_false]

theorem clean_calculate (vm : Vm) (pc : Nat) (h : Clean vm) :
    Clean (ubpfCalculateStackUsageForLocalFunc vm pc).2 := by
  rw [calculate_clean vm pc h]
  refine ⟨h.calculator, ?_⟩
  intro target
  by_cases hpc : target = pc
  · simp only [hpc, Function.update_self]
  · simp only [Function.update_of_ne hpc, h.usage]

theorem validate_clean (vm : Vm) (insts : List EbpfInst) (h : Clean vm) :
    Clean (validate vm insts).2 :=
  validate_keeps Clean clean_calculate vm insts h

/-- The answer of validation does not depend on the marks of earlier
    programs. -/
theorem validate_twin (vm vm' : Vm) (insts : List EbpfInst) (h : Clean vm) (h' : Clean vm')
    (hsetup : SameSetup vm vm') : (validate vm insts).1 = (validate vm' insts).1 := by
  refine (validate_sim (fun a b => Clean a ∧ Clean b ∧ SameSetup a b) ?_ ?_ vm vm' insts
    ⟨h, h', hsetup⟩).1
  · rintro a b idx ⟨-, -, hab⟩
    simp only [externalExists, hab.extFuncs, hab.dispatcherValidate]
  · rintro a b pc ⟨ha, hb, hab⟩
    refine ⟨?_, clean_calculate a pc ha, clean_calculate b pc hb, ?_⟩
    · rw [calculate_clean a pc ha, calculate_clean b pc hb]
    · rw [calculate_clean a pc ha, calculate_clean b pc hb]
      exact ⟨hab.1, hab.2, hab.3, hab.4, hab.5, hab.6⟩

/-- A local call that passes has its target marked. The target is in the
    program, so taking it modulo `2 ^ 32` changes nothing. -/
theorem validateInst_call (vm vm' : Vm) (insts : List EbpfInst) (i target : Nat) (inst : EbpfInst)
    (hlen : insts.length ≤ 2 ^ 32) (h : validateInst vm insts i inst = (none, vm'))
    (hcall : localCallTarget i inst = some target) :
    (vm'.localFuncStackUsage target).calculated = true := by
  unfold localCallTarget at hcall
  by_cases hlocal : inst.opcode = 0x85 ∧ inst.src = 1
  · rw [if_pos hlocal, Option.some.injEq] at hcall
    have hdecode : Opcode.decode inst.opcode = some .call := by
      rw [hlocal.1]
      rfl
    have hsrc : ¬ inst.src = 0 := by
      rw [hlocal.2]
      decide
    simp only [validateInst, hdecode, validateOp, validateCall, if_neg hsrc, if_pos hlocal.2] at h
    -- A target outside the program is an error.
    by_cases hout : (i : Int) + (inst.imm + 1) < 0 ∨ (insts.length : Int) ≤ i + (inst.imm + 1)
    · rw [if_pos hout] at h
      exact absurd h (by simp only [Prod.mk.injEq, reduceCtorEq, false_and, not_false_eq_true])
    rw [if_neg hout] at h
    have htarget : ((i : Int) + (inst.imm + 1)).toNat = target := by
      rw [← hcall]
      omega
    have hmark := marked_self vm target
    rw [htarget] at h
    generalize ubpfCalculateStackUsageForLocalFunc vm target = answer at h hmark
    rcases answer with ⟨error, vm₁⟩
    cases error with
    | some e => exact absurd h (by simp only [Prod.mk.injEq, reduceCtorEq, false_and,
        not_false_eq_true])
    | none =>
        simp only at h
        split at h
        · exact absurd h (by simp only [Prod.mk.injEq, reduceCtorEq, false_and, not_false_eq_true])
        · split at h
          · exact absurd h (by simp only [Prod.mk.injEq, reduceCtorEq, false_and,
              not_false_eq_true])
          · rw [← (Prod.mk.inj h).2]
            exact hmark
  · rw [if_neg hlocal] at hcall
    exact absurd hcall (by simp only [reduceCtorEq, not_false_eq_true])

/-- A double-word load that passes is followed by a slot with opcode zero. -/
theorem validateInst_lddw (vm vm' : Vm) (insts : List EbpfInst) (i : Nat) (inst : EbpfInst)
    (h : validateInst vm insts i inst = (none, vm')) (hop : inst.opcode = 0x18) :
    (insts[i + 1]?).map EbpfInst.opcode = some 0 := by
  have hdecode : Opcode.decode inst.opcode = some .lddw := by
    rw [hop]
    rfl
  simp only [validateInst, hdecode, validateOp] at h
  by_cases hsrc : inst.src ≠ 0
  · rw [if_pos hsrc] at h
    exact absurd h (by simp only [Prod.mk.injEq, reduceCtorEq, false_and, not_false_eq_true])
  rw [if_neg hsrc] at h
  by_cases hnext : (insts[i + 1]?).map EbpfInst.opcode ≠ some 0
  · rw [if_pos hnext] at h
    exact absurd h (by simp only [Prod.mk.injEq, reduceCtorEq, false_and, not_false_eq_true])
  · exact not_not.mp hnext

/-- In a program that passes, the targets of local calls are marked. The slots
    the loop skips are second halves of double-word loads, with opcode zero,
    which are no calls. -/
theorem validateLoop_calls (insts : List EbpfInst) (hlen : insts.length ≤ 2 ^ 32)
    (rest : List EbpfInst) : ∀ (vm : Vm) (i : Nat) (skip : Bool), insts.drop i = rest →
      (skip = true → ∀ inst, rest.head? = some inst → inst.opcode = 0) →
      (validateLoop insts vm rest i skip).1 = none →
      ∀ k inst target, rest[k]? = some inst → localCallTarget (i + k) inst = some target →
        ((validateLoop insts vm rest i skip).2.localFuncStackUsage target).calculated = true := by
  induction rest with
  | nil =>
      intro vm i skip _ _ _ k inst target hk _
      exact absurd hk (by simp only [List.getElem?_nil, reduceCtorEq, not_false_eq_true])
  | cons first rest ih =>
      intro vm i skip hdrop hskip hok k inst target hk hcall
      have hdrop' : insts.drop (i + 1) = rest := by
        rw [← List.drop_drop, hdrop, List.drop_one, List.tail_cons]
      cases skip with
      | true =>
          cases k with
          | zero =>
              -- The skipped slot itself has opcode zero.
              have hzero := hskip rfl first rfl
              simp only [List.getElem?_cons_zero, Option.some.injEq] at hk
              rw [← hk, localCallTarget, hzero] at hcall
              exact absurd hcall (by simp only [OfNat.zero_ne_ofNat, false_and, if_false,
                reduceCtorEq, not_false_eq_true])
          | succ k =>
              rw [List.getElem?_cons_succ] at hk
              rw [← Nat.add_assoc, Nat.add_right_comm] at hcall
              exact ih vm (i + 1) false hdrop' (fun h => absurd h Bool.false_ne_true) hok k inst
                target hk hcall
      | false =>
          simp only [validateLoop] at hok ⊢
          cases hfirst : validateInst vm insts i first with
          | mk error vm₁ =>
              rw [hfirst] at hok
              cases error with
              | some e => exact absurd hok (by simp only [reduceCtorEq, not_false_eq_true])
              | none =>
                  simp only at hok ⊢
                  cases k with
                  | zero =>
                      simp only [List.getElem?_cons_zero, Option.some.injEq] at hk
                      rw [← hk, Nat.add_zero] at hcall
                      -- The target is marked now, and the rest of the loop keeps marks.
                      have hmark := validateInst_call vm vm₁ insts i target first hlen hfirst hcall
                      exact validateLoop_keeps
                        (fun vm => (vm.localFuncStackUsage target).calculated = true)
                        (fun vm pc h => marked_calculate vm pc target h) insts rest vm₁ (i + 1) _
                        hmark
                  | succ k =>
                      rw [List.getElem?_cons_succ] at hk
                      rw [← Nat.add_assoc, Nat.add_right_comm] at hcall
                      refine ih vm₁ (i + 1) _ hdrop' ?_ hok k inst target hk hcall
                      -- The next slot is skipped only after a double-word load.
                      intro hload next hnext
                      have hzero := validateInst_lddw vm vm₁ insts i first hfirst
                        (beq_iff_eq.mp hload)
                      rw [← List.head?_drop, hdrop', hnext, Option.map_some,
                        Option.some.injEq] at hzero
                      exact hzero

/-- What `ubpf_load` marks as a function is the target of a local call. -/
theorem markLocalCalls_true (insts : List EbpfInst) : ∀ (funcs : List Bool) (i pc : Nat),
    (markLocalCalls funcs insts i)[pc]? = some true →
      funcs[pc]? = some true ∨
        ∃ k inst, insts[k]? = some inst ∧ localCallTarget (i + k) inst = some pc := by
  induction insts with
  | nil => intro funcs i pc h; exact .inl h
  | cons first insts ih =>
      intro funcs i pc h
      have hlater : (∃ k inst, insts[k]? = some inst ∧ localCallTarget (i + 1 + k) inst = some pc) →
          ∃ k inst, (first :: insts)[k]? = some inst ∧ localCallTarget (i + k) inst = some pc := by
        rintro ⟨k, inst, hk, hcall⟩
        refine ⟨k + 1, inst, by rw [List.getElem?_cons_succ, hk], ?_⟩
        rw [← Nat.add_assoc, Nat.add_right_comm, hcall]
      simp only [markLocalCalls] at h
      cases htarget : localCallTarget i first with
      | none =>
          simp only [htarget] at h
          rcases ih funcs (i + 1) pc h with hold | hnew
          · exact .inl hold
          · exact .inr (hlater hnew)
      | some target =>
          simp only [htarget] at h
          rcases ih (funcs.set target true) (i + 1) pc h with hold | hnew
          · by_cases hpc : target = pc
            · exact .inr ⟨0, first, rfl, by rw [Nat.add_zero, htarget, hpc]⟩
            · rw [List.getElem?_set_ne hpc] at hold
              exact .inl hold
          · exact .inr (hlater hnew)

/-- Where a function of an accepted program starts, the usage is marked. -/
theorem validate_starts (vm : Vm) (insts : List EbpfInst) (h : (validate vm insts).1 = none)
    (pc : Nat) (hpc : pc = 0 ∨
      (markLocalCalls (List.replicate insts.length false) insts 0)[pc]? = some true) :
    ((validate vm insts).2.localFuncStackUsage pc).calculated = true := by
  have hmarked := marked_self vm 0
  unfold validate at h ⊢
  by_cases hmax : maxInsts ≤ insts.length
  · rw [if_pos hmax] at h
    exact absurd h (by simp only [reduceCtorEq, not_false_eq_true])
  rw [if_neg hmax] at h ⊢
  generalize ubpfCalculateStackUsageForLocalFunc vm 0 = answer at h hmarked ⊢
  rcases answer with ⟨error, vm₁⟩
  cases error with
  | some e => exact absurd h (by simp only [reduceCtorEq, not_false_eq_true])
  | none =>
      simp only at h hmarked ⊢
      rcases hpc with hzero | hmark
      · rw [hzero]
        exact validateLoop_keeps (fun vm => (vm.localFuncStackUsage 0).calculated = true)
          (fun vm pc h => marked_calculate vm pc 0 h) insts insts vm₁ 0 false hmarked
      · have hlen : insts.length ≤ 2 ^ 32 := by
          unfold maxInsts at hmax
          omega
        rcases markLocalCalls_true insts _ 0 pc hmark with hold | ⟨k, inst, hk, hcall⟩
        -- The table starts without a mark.
        · rw [List.getElem?_replicate] at hold
          split at hold
          · exact absurd hold (by decide)
          · exact absurd hold (by simp only [reduceCtorEq, not_false_eq_true])
        · exact validateLoop_calls insts hlen insts vm₁ 0 false List.drop_zero
            (fun h => absurd h Bool.false_ne_true) h k inst pc hk hcall

end UniBPF
