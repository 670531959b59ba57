import UniBPF.Theory.Validation

/-!
# The Machine Under Its Operations

What loading, unloading, compiling and dumping do to a machine, each said
once.

A load changes the program and the stack usage table (`ubpfLoad_frame`) and
unloading forgets the program and the compiled code (`ubpfUnloadCode_vm`).
What the table had before is not seen again. On the machines an element has, a
loaded program is a function of its code and the setup (`ubpfLoad_program`).

The invariant of the compiled code is `OwnsCode`. Where a machine says it has
compiled code, that code is the translation of the program it holds, and the
bytes are mapped at the window. Every operation keeps it, for a machine that
has the window to itself; what happens when several machines share it is in
`Theory.JitWindow`.

## Main definitions

* `programOf`: A program as it is seen once it is loaded.
* `OwnsCode`: The compiled code is the translation of the held program.

## Theorems

* `ubpfLoad_frame`, `ubpfLoad_loaded`: What a load changes.
* `ubpfLoad_view`, `ubpfLoad_program`: A loaded program is read back as its
  code says.
* `ubpfLoad_twin`: Whether a program is accepted does not depend on what was
  there before.
* `ubpfUnloadCode_vm`: What unloading forgets.
* `read_memcpyTo`: Copied bytes are read back where they are mapped.
* `installCode_ok`: Installed code is at the window.
* `ubpfCompile_fresh`: Compiling a machine that has no compiled code.
* `ownsCode_load`, `ownsCode_compile`, `ownsCode_dump`: The invariant.
-/

namespace UniBPF

/-- A load that fails changes at most the stack usage table. -/
theorem ubpfLoad_failed (vm : Vm) (base : Addr) (code : Bytes) (e : LoadError)
    (h : (ubpfLoad vm base code).1 = some e) : OnlyUsage vm (ubpfLoad vm base code).2 := by
  unfold ubpfLoad at h ⊢
  split at h
  · rename_i hheld
    rw [if_pos hheld]
    rfl
  · rename_i hheld
    rw [if_neg hheld]
    split at h
    · rename_i hlen
      rw [if_pos hlen]
      rfl
    · rename_i hlen
      rw [if_neg hlen]
      have hframe := validate_frame vm ((instWords code).map EbpfInst.ofWord)
      simp only [] at h ⊢
      generalize validate vm ((instWords code).map EbpfInst.ofWord) = answer at h hframe ⊢
      rcases answer with ⟨error, vm'⟩
      cases error with
      | some e' => exact hframe
      | none => exact absurd h (by simp only [reduceCtorEq, not_false_eq_true])

/-- A load that succeeds found the machine empty and puts the program on top
    of what validation left. -/
theorem ubpfLoad_loaded (vm : Vm) (base : Addr) (code : Bytes)
    (h : (ubpfLoad vm base code).1 = none) :
    vm.insts = none ∧ (validate vm ((instWords code).map EbpfInst.ofWord)).1 = none ∧
      (ubpfLoad vm base code).2 =
        { (validate vm ((instWords code).map EbpfInst.ofWord)).2 with
          insts := some
            { base := base
              words := (instWords code).map (ubpfStoreInstruction base vm.pointerSecret) }
          numInsts := (instWords code).length
          intFuncs := markLocalCalls (List.replicate (instWords code).length false)
            ((instWords code).map EbpfInst.ofWord) 0 } := by
  unfold ubpfLoad at h ⊢
  split at h
  · exact absurd h (by simp only [reduceCtorEq, not_false_eq_true])
  · rename_i hheld
    rw [if_neg hheld]
    split at h
    · exact absurd h (by simp only [reduceCtorEq, not_false_eq_true])
    · rename_i hlen
      rw [if_neg hlen]
      have hsecret := (validate_frame vm ((instWords code).map EbpfInst.ofWord)).setup.pointerSecret
      simp only [List.length_map] at h ⊢
      generalize validate vm ((instWords code).map EbpfInst.ofWord) = answer at h hsecret ⊢
      rcases answer with ⟨error, vm'⟩
      cases error with
      | some e' => exact absurd h (by simp only [reduceCtorEq, not_false_eq_true])
      | none =>
          refine ⟨Option.not_isSome_iff_eq_none.mp hheld, rfl, ?_⟩
          rw [← hsecret]

/-- An instruction is fetched as it was stored. -/
theorem fetch_store (base secret word : Nat) :
    ubpfFetchInstruction base secret (ubpfStoreInstruction base secret word)
      = EbpfInst.ofWord word := by
  -- Both keys are applied a second time and cancel.
  have hword : word ^^^ base ^^^ secret ^^^ base ^^^ secret = word := by
    rw [Nat.xor_assoc (word ^^^ base), Nat.xor_comm secret base, ← Nat.xor_assoc (word ^^^ base),
      Nat.xor_assoc word, Nat.xor_self, Nat.xor_zero, Nat.xor_assoc word, Nat.xor_self,
      Nat.xor_zero]
  rw [ubpfFetchInstruction, ubpfStoreInstruction, hword]

/-- The instructions of a program that was loaded are those of its code. -/
theorem ubpfLoad_view (vm : Vm) (base : Addr) (code : Bytes)
    (h : (ubpfLoad vm base code).1 = none) :
    ∃ program, (ubpfLoad vm base code).2.view = some program ∧
      program.insts = (instWords code).map EbpfInst.ofWord := by
  rcases ubpfLoad_loaded vm base code h with ⟨-, -, hvm⟩
  have hsecret := (validate_frame vm ((instWords code).map EbpfInst.ofWord)).setup.pointerSecret
  rw [hvm]
  refine ⟨_, rfl, ?_⟩
  simp only [List.map_map, hsecret]
  apply List.map_congr_left
  intro word _
  exact fetch_store base vm.pointerSecret word

/-- A machine that has instructions has a program to show. -/
theorem view_of_insts (vm : Vm) (h : vm.insts.isSome = true) :
    ∃ program, vm.view = some program := by
  rcases Option.isSome_iff_exists.mp h with ⟨store, hstore⟩
  rw [Vm.view, hstore]
  exact ⟨_, rfl⟩

/-- A program as it is seen once it is loaded: no function of it has a stack
    usage of its own. -/
def programOf (vm : Vm) (code : Bytes) : ProgramView :=
  let insts := (instWords code).map EbpfInst.ofWord
  let intFuncs := markLocalCalls (List.replicate (instWords code).length false) insts 0
  { insts := insts
    numInsts := (instWords code).length
    intFuncs := intFuncs
    stackUsage := (List.range (instWords code).length).map fun pc =>
      if pc == 0 || intFuncs[pc]? == some true then some 0 else none
    extFuncs := vm.extFuncs
    unwindStackExtensionIndex := vm.unwindStackExtensionIndex }

/-- A loaded program is a function of its code and the setup. -/
theorem ubpfLoad_program (vm : Vm) (base : Addr) (code : Bytes) (hclean : Clean vm)
    (h : (ubpfLoad vm base code).1 = none) :
    (ubpfLoad vm base code).2.view = some (programOf vm code) := by
  rcases ubpfLoad_view vm base code h with ⟨program, hview, hinsts⟩
  rcases ubpfLoad_loaded vm base code h with ⟨-, hvalid, hvm⟩
  have hsetup := (validate_frame vm ((instWords code).map EbpfInst.ofWord)).setup
  have hclean' := validate_clean vm ((instWords code).map EbpfInst.ofWord) hclean
  have hstarts := validate_starts vm ((instWords code).map EbpfInst.ofWord) hvalid
  rw [List.length_map] at hstarts
  rw [hvm] at hview ⊢
  simp only [Vm.view, Option.map_some, Option.some.injEq] at hview ⊢
  rw [← hview] at hinsts
  simp only [programOf, ProgramView.mk.injEq]
  refine ⟨hinsts, trivial, trivial, ?_, hsetup.extFuncs, hsetup.unwind⟩
  apply List.map_congr_left
  intro pc _
  simp only [Vm.startsFunction, ubpfStackUsageForLocalFunc]
  -- Where the usage is asked for it was marked, and no mark has a usage.
  split
  · rename_i hstart
    rw [Bool.or_eq_true, beq_iff_eq, beq_iff_eq] at hstart
    rw [if_pos (hstarts pc hstart), hclean'.usage pc]
  · rfl

/-- Whether a program is accepted depends on its code and the setup. -/
theorem ubpfLoad_twin (vm vm' : Vm) (base base' : Addr) (code : Bytes) (hclean : Clean vm)
    (hclean' : Clean vm') (hsetup : SameSetup vm vm') (hempty : vm'.insts = none)
    (h : (ubpfLoad vm base code).1 = none) : (ubpfLoad vm' base' code).1 = none := by
  rcases ubpfLoad_loaded vm base code h with ⟨hold, hvalid, -⟩
  have hsame := validate_twin vm vm' ((instWords code).map EbpfInst.ofWord) hclean hclean' hsetup
  rw [hvalid] at hsame
  unfold ubpfLoad at h ⊢
  rw [hold] at h
  rw [hempty]
  simp only [Option.isSome_none, Bool.false_eq_true, if_false] at h ⊢
  by_cases hlen : code.length % 8 ≠ 0
  · rw [if_pos hlen] at h
    exact absurd h (by simp only [reduceCtorEq, not_false_eq_true])
  rw [if_neg hlen]
  generalize validate vm' ((instWords code).map EbpfInst.ofWord) = answer at hsame ⊢
  rcases answer with ⟨error, vm₁⟩
  simp only at hsame
  rw [← hsame]

/-- No load touches the setup or the compiled code. -/
theorem ubpfLoad_frame (vm : Vm) (base : Addr) (code : Bytes) :
    SameSetup vm (ubpfLoad vm base code).2 ∧ (ubpfLoad vm base code).2.jitted = vm.jitted ∧
      (ubpfLoad vm base code).2.jittedSize = vm.jittedSize := by
  cases hload : (ubpfLoad vm base code).1 with
  | some e =>
      have hframe := ubpfLoad_failed vm base code e hload
      refine ⟨hframe.setup, ?_, ?_⟩ <;> rw [hframe]
  | none =>
      have hframe := validate_frame vm ((instWords code).map EbpfInst.ofWord)
      have hsetup := hframe.setup
      rcases ubpfLoad_loaded vm base code hload with ⟨-, -, hvm⟩
      refine ⟨?_, ?_, ?_⟩
      · rw [hvm]
        exact ⟨hsetup.1, hsetup.2, hsetup.3, hsetup.4, hsetup.5, hsetup.6⟩
      · rw [hvm, hframe]
      · rw [hvm, hframe]

/-- A load leaves a clean machine clean, whether it succeeds or not. -/
theorem ubpfLoad_clean (vm : Vm) (base : Addr) (code : Bytes) (hclean : Clean vm) :
    Clean (ubpfLoad vm base code).2 := by
  have hvalid := validate_clean vm ((instWords code).map EbpfInst.ofWord) hclean
  unfold ubpfLoad
  split
  · exact hclean
  · split
    · exact hclean
    · simp only []
      generalize validate vm ((instWords code).map EbpfInst.ofWord) = answer at hvalid ⊢
      rcases answer with ⟨error, vm'⟩
      cases error with
      | some e => exact hvalid
      | none => exact ⟨hvalid.calculator, hvalid.usage⟩

/-- What unloading forgets. -/
theorem ubpfUnloadCode_vm (vm : Vm) (as : AddressSpace) :
    (ubpfUnloadCode vm as).1.insts = none ∧ (ubpfUnloadCode vm as).1.jitted = none ∧
      SameSetup vm (ubpfUnloadCode vm as).1 ∧
      (ubpfUnloadCode vm as).1.localFuncStackUsage = vm.localFuncStackUsage := by
  unfold ubpfUnloadCode dropJitted
  -- With or without code, compiled or not: nothing else is touched.
  rcases vm with ⟨insts, _, jitted, _, _, _, _, _, _, _, _, _, _⟩
  cases jitted with
  | none =>
      cases insts with
      | none => exact ⟨rfl, rfl, ⟨rfl, rfl, rfl, rfl, rfl, rfl⟩, rfl⟩
      | some store => exact ⟨rfl, rfl, ⟨rfl, rfl, rfl, rfl, rfl, rfl⟩, rfl⟩
  | some a =>
      cases insts with
      | none => exact ⟨rfl, rfl, ⟨rfl, rfl, rfl, rfl, rfl, rfl⟩, rfl⟩
      | some store => exact ⟨rfl, rfl, ⟨rfl, rfl, rfl, rfl, rfl, rfl⟩, rfl⟩

/-- Copied bytes are read back where they are mapped. -/
theorem read_memcpyTo (as : AddressSpace) (addr : Nat) (bytes : Bytes)
    (hmapped : ∀ i, i < bytes.length → as.mapped ((addr + i) / pageSize) = true) :
    (memcpyTo as addr bytes).read addr bytes.length = some bytes := by
  have hall : (List.range bytes.length).all
      (fun i => (memcpyTo as addr bytes).mapped ((addr + i) / pageSize)) = true := by
    rw [List.all_eq_true]
    intro i hi
    exact hmapped i (List.mem_range.mp hi)
  rw [AddressSpace.read, if_pos hall, Option.some.injEq]
  apply List.ext_getElem
  · rw [List.length_map, List.length_range]
  · intro i hi hi'
    have hin : addr ≤ addr + i ∧ addr + i < addr + bytes.length := by omega
    rw [List.getElem_map, List.getElem_range, memcpyTo]
    simp only [if_pos hin, Nat.add_sub_cancel_left]
    rw [List.getD_eq_getElem?_getD, List.getElem?_eq_getElem hi', Option.getD_some]

/-- The pages `ukplat_page_map` was asked for cover the code. -/
theorem inPages_code (addr len i : Nat) (h : i < len) :
    inPages (addr / pageSize * pageSize) (len / pageSize + 1)
      ((addr / pageSize * pageSize + i) / pageSize) = true := by
  unfold inPages pageSize
  rw [decide_eq_true_eq]
  omega

theorem jitWindow_aligned : jitWindow / pageSize * pageSize = jitWindow := by decide

/-- A mapping that succeeds covers the code and finds its pages free. -/
theorem ukplatPageMap_ok (as as' : AddressSpace) (addr pages : Nat) (frames : Bool)
    (h : ukplatPageMap as addr pages frames = some as') :
    frames = true ∧ as.isFree addr pages = true ∧
      as' = { as with mapped := fun page => inPages addr pages page || as.mapped page } := by
  unfold ukplatPageMap at h
  split at h
  · rename_i hok
    rw [Bool.and_eq_true] at hok
    exact ⟨hok.1, hok.2, (Option.some.inj h).symm⟩
  · exact absurd h (by simp only [reduceCtorEq, not_false_eq_true])

/-- Installed code is at the window, mapped and as it was translated. -/
theorem installCode_ok (env : PageEnv) (vm : Vm) (as : AddressSpace) (code : Bytes)
    (h : (installCode env vm as code).error = none) :
    (env.frames = true ∧ env.attrs = true ∧
        as.isFree jitWindow (code.length / pageSize + 1) = true) ∧
      (installCode env vm as code).vm =
        { vm with jitted := some jitWindow, jittedSize := code.length } ∧
      (installCode env vm as code).space.read jitWindow code.length = some code := by
  unfold installCode at h ⊢
  cases hmap : ukplatPageMap as jitWindow (code.length / pageSize + 1) env.frames with
  | none =>
      rw [hmap] at h
      exact absurd h (by simp only [reduceCtorEq, not_false_eq_true])
  | some as' =>
      rcases ukplatPageMap_ok as as' _ _ _ hmap with ⟨hframes, hfree, has⟩
      rw [hmap] at h
      simp only at h ⊢
      by_cases hattrs : env.attrs = true
      · rw [if_pos hattrs]
        refine ⟨⟨hframes, hattrs, hfree⟩, rfl, read_memcpyTo as' jitWindow code ?_⟩
        -- Every byte of the code is on a page that was just mapped.
        intro i hi
        have hin := inPages_code jitWindow code.length i hi
        rw [jitWindow_aligned] at hin
        rw [has]
        simp only [hin, Bool.true_or]
      · rw [if_neg hattrs] at h
        exact absurd h (by simp only [reduceCtorEq, not_false_eq_true])

/-- Code is installed when there are frames, the window is free and the pages
    can be made executable. -/
theorem installCode_error (env : PageEnv) (vm : Vm) (as : AddressSpace) (code : Bytes)
    (hframes : env.frames = true) (hattrs : env.attrs = true)
    (hfree : as.isFree jitWindow (code.length / pageSize + 1) = true) :
    (installCode env vm as code).error = none := by
  simp only [installCode, ukplatPageMap, hframes, hfree, Bool.and_self, if_true, hattrs]

/-- A failed installation leaves the machine as it was. -/
theorem installCode_failed (env : PageEnv) (vm : Vm) (as : AddressSpace) (code : Bytes)
    (e : CompileError) (h : (installCode env vm as code).error = some e) :
    (installCode env vm as code).vm = vm := by
  unfold installCode at h ⊢
  cases hmap : ukplatPageMap as jitWindow (code.length / pageSize + 1) env.frames with
  | none => rfl
  | some as' =>
      rw [hmap] at h
      simp only at h ⊢
      by_cases hattrs : env.attrs = true
      · rw [if_pos hattrs] at h
        exact absurd h (by simp only [reduceCtorEq, not_false_eq_true])
      · rw [if_neg hattrs]

/-- Compiling a machine that has no compiled code is translating and
    installing. -/
theorem ubpfCompile_fresh (translate : Translate) (env : PageEnv) (vm : Vm) (as : AddressSpace)
    (program : ProgramView) (hjit : vm.jitted = none) (hview : vm.view = some program) :
    ubpfCompile translate env vm as = match translate vm.jitterBufferSize .basic program with
      | none => ⟨some .translation, { vm with jittedResult := ⟨false, .basic⟩ }, as⟩
      | some code => installCode env { vm with jittedResult := ⟨true, .basic⟩ } as code := by
  cases htrans : translate vm.jitterBufferSize .basic program with
  | none =>
      simp only [ubpfCompile, ubpfCompileEx, hjit, Option.isSome_none, Bool.false_and,
        Bool.false_eq_true, if_false, dropJitted, hview, htrans]
  | some code =>
      simp only [ubpfCompile, ubpfCompileEx, hjit, Option.isSome_none, Bool.false_and,
        Bool.false_eq_true, if_false, dropJitted, hview, htrans]

/-- An empty machine is not compiled. -/
theorem ubpfCompile_empty (translate : Translate) (env : PageEnv) (vm : Vm) (as : AddressSpace)
    (hjit : vm.jitted = none) (hview : vm.view = none) :
    ubpfCompile translate env vm as = ⟨some .notLoaded, vm, as⟩ := by
  simp only [ubpfCompile, ubpfCompileEx, hjit, Option.isSome_none, Bool.false_and,
    Bool.false_eq_true, if_false, dropJitted, hview]

/-- A compilation of a machine without compiled code that succeeds puts the
    translation at the window. -/
theorem ubpfCompile_ok (translate : Translate) (env : PageEnv) (vm : Vm) (as : AddressSpace)
    (program : ProgramView) (hjit : vm.jitted = none) (hview : vm.view = some program)
    (h : (ubpfCompile translate env vm as).error = none) :
    ∃ code, translate vm.jitterBufferSize .basic program = some code ∧
      (env.frames = true ∧ env.attrs = true ∧
        as.isFree jitWindow (code.length / pageSize + 1) = true) ∧
      (ubpfCompile translate env vm as).vm =
        { vm with
          jittedResult := ⟨true, .basic⟩, jitted := some jitWindow, jittedSize := code.length } ∧
      (ubpfCompile translate env vm as).space.read jitWindow code.length = some code := by
  rw [ubpfCompile_fresh translate env vm as program hjit hview] at h ⊢
  cases htrans : translate vm.jitterBufferSize .basic program with
  | none =>
      rw [htrans] at h
      exact absurd h (by simp only [reduceCtorEq, not_false_eq_true])
  | some code =>
      rw [htrans] at h
      rcases installCode_ok env { vm with jittedResult := ⟨true, .basic⟩ } as code h with
        ⟨henv, hvm, hread⟩
      exact ⟨code, rfl, henv, hvm, hread⟩

/-- A compilation that fails leaves no compiled code and the program as it
    was. -/
theorem ubpfCompile_failed (translate : Translate) (env : PageEnv) (vm : Vm) (as : AddressSpace)
    (e : CompileError) (hjit : vm.jitted = none)
    (h : (ubpfCompile translate env vm as).error = some e) :
    (ubpfCompile translate env vm as).vm.jitted = none ∧
      (ubpfCompile translate env vm as).vm.view = vm.view ∧
      SameSetup vm (ubpfCompile translate env vm as).vm ∧
      (ubpfCompile translate env vm as).vm.insts = vm.insts ∧
      (ubpfCompile translate env vm as).vm.localFuncStackUsage = vm.localFuncStackUsage := by
  cases hview : vm.view with
  | none =>
      rw [ubpfCompile_empty translate env vm as hjit hview]
      exact ⟨hjit, hview, .refl vm, rfl, rfl⟩
  | some program =>
      rw [ubpfCompile_fresh translate env vm as program hjit hview] at h ⊢
      rw [← hview]
      cases htrans : translate vm.jitterBufferSize .basic program with
      | none => exact ⟨hjit, rfl, ⟨rfl, rfl, rfl, rfl, rfl, rfl⟩, rfl, rfl⟩
      | some code =>
          -- The translation is there, but the pages could not be had.
          rw [htrans] at h
          simp only at h ⊢
          rw [installCode_failed env _ as code e h]
          exact ⟨hjit, rfl, ⟨rfl, rfl, rfl, rfl, rfl, rfl⟩, rfl, rfl⟩

/-- The compiled code a machine says it has is the translation of the program
    it holds, and its bytes are mapped at the window. -/
def OwnsCode (translate : Translate) (vm : Vm) (as : AddressSpace) : Prop :=
  ∀ a, vm.jitted = some a → a = jitWindow ∧ ∃ program code, vm.view = some program ∧
    translate vm.jitterBufferSize .basic program = some code ∧ code.length = vm.jittedSize ∧
    as.read a vm.jittedSize = some code

theorem ownsCode_of_none (translate : Translate) (vm : Vm) (as : AddressSpace)
    (h : vm.jitted = none) : OwnsCode translate vm as := by
  intro a ha
  rw [h] at ha
  exact absurd ha (by simp only [reduceCtorEq, not_false_eq_true])

theorem ownsCode_compile (translate : Translate) (env : PageEnv) (vm : Vm) (as : AddressSpace)
    (hjit : vm.jitted = none) :
    OwnsCode translate (ubpfCompile translate env vm as).vm
      (ubpfCompile translate env vm as).space := by
  cases herror : (ubpfCompile translate env vm as).error with
  | some e =>
      exact ownsCode_of_none _ _ _ (ubpfCompile_failed translate env vm as e hjit herror).1
  | none =>
      cases hview : vm.view with
      | none =>
          rw [ubpfCompile_empty translate env vm as hjit hview] at herror
          exact absurd herror (by simp only [reduceCtorEq, not_false_eq_true])
      | some program =>
          rcases ubpfCompile_ok translate env vm as program hjit hview herror with
            ⟨code, htrans, -, hvm, hread⟩
          intro a ha
          rw [hvm, Option.some.injEq] at ha
          rw [hvm, ← ha]
          exact ⟨rfl, program, code, hview, htrans, rfl, hread⟩

/-- The JIT dump only touches the result field, which the program view does
    not show. -/
theorem ownsCode_dump (translate : Translate) (vm : Vm) (as : AddressSpace) (ok : Bool)
    (h : OwnsCode translate vm as) : OwnsCode translate (handleJitDump vm ok) as :=
  h

end UniBPF
