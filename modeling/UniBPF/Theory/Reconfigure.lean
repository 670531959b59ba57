import UniBPF.Theory.Configure

/-!
# A Reconfigured Element Is Like a New One

The machine of an element is made once and then used for program after
program. Unloading resets only part of it. The local functions, the stack
usage table and the result of the last translation stay, and so does the
function pointer in the element. None of it can be seen once a call has
succeeded: what packets are run by is what a new element would run them by.

Three facts carry this. The load fills the local functions anew, and marks
the stack usage wherever a function starts, with a usage that no program ever
changed (`ubpfLoad_program`). The compilation finds no compiled code, so it
never takes the old code for the new one. And the path of a packet is a
function of the mode and the loaded program (`path_of_success`).

The keyword arguments are another matter. A keyword that is not given leaves
its member as it is, so a call without `JIT` runs the program in the mode of
an earlier call. The comparison is therefore with a new element whose members
agree once the arguments are committed (`NewLike`). Any new element will do if
the call gives all of them.

The map context is outside the comparison as well. It is meant to outlive the
programs, and what the program has of it are the values its relocations got.

## Main definitions

* `releasing`: An operation, with the lock released after it.
* `MachineInv`: The machine of an element in its later life.
* `NewLike`: A new element with the same keyword members.
* `installedPath`: The path of a packet, by the mode and the program.

## Theorems

* `machineInv_step`: The invariant is kept.
* `path_of_success`: What a successful call leaves packets to be run by.
* `reconfigured_like_new`: A reconfigured element is like a new one.
* `mode_outlives_call`: A call without a keyword is not.
-/

namespace UniBPF

variable (P : Platform) (cls : ElementClass)

/-- An operation, with the lock released after it. -/
def releasing (w : World) (e : Event) : Option World :=
  (step P cls w e).map fun w' => ⟨{ w'.element with lock := .free }, w'.space⟩

/-- The machine of an element in its later life: set up as it was made, and
    without stack usage. -/
def MachineInv (e : Element) : Prop :=
  ∀ vm, e.vm = some vm → Clean vm ∧ SameSetup (initUbpfVm cls) vm

theorem initUbpfVm_clean : Clean (initUbpfVm cls) := by
  cases cls <;> exact ⟨rfl, fun _ => rfl⟩

theorem machineInv_some (e : Element) (vm : Vm) (hvm : e.vm = some vm)
    (h : Clean vm ∧ SameSetup (initUbpfVm cls) vm) : MachineInv cls e := by
  intro vm' hvm'
  rw [hvm, Option.some.injEq] at hvm'
  rw [← hvm']
  exact h

-- The machine a call works on, made now or before.
theorem machineOf_inv (e : Element) (h : MachineInv cls e) :
    Clean (machineOf cls e) ∧ SameSetup (initUbpfVm cls) (machineOf cls e) := by
  cases hvm : e.vm with
  | none =>
      rw [machineOf, hvm, Option.getD_none]
      exact ⟨initUbpfVm_clean cls, .refl _⟩
  | some vm =>
      rw [machineOf, hvm, Option.getD_some]
      exact h vm hvm

theorem unloaded_inv (w : World) (h : MachineInv cls w.element) :
    Clean (unloaded cls w).1 ∧ SameSetup (initUbpfVm cls) (unloaded cls w).1 := by
  rcases machineOf_inv cls w.element h with ⟨hclean, hsetup⟩
  rcases ubpfUnloadCode_vm (machineOf cls w.element) w.space with ⟨-, -, hsame, husage⟩
  refine ⟨⟨hsame.stackUsageCalculator.trans hclean.calculator, ?_⟩, hsetup.trans hsame⟩
  intro pc
  rw [unloaded, husage]
  exact hclean.usage pc

theorem loadedBy_inv (w : World) (call : ConfigureCall) (args : ConfArgs)
    (loaded : Loaded BpfMapCtx) (h : MachineInv cls w.element)
    (hload : loadedBy P cls w call args = some loaded) :
    Clean loaded.vm ∧ SameSetup (initUbpfVm cls) loaded.vm := by
  rcases unloaded_inv cls w h with ⟨hclean, hsetup⟩
  have hsame := (ubpfLoadElfEx_frame _ _ _ _ _ _ loaded hload).1
  refine ⟨?_, hsetup.trans hsame⟩
  rcases ubpfLoadElfEx_cases _ _ _ _ _ _ loaded hload with
    ⟨e, -, hvm, -⟩ | ⟨layout, s, stop, -, -, -, -, -, ⟨e, -, -, hvm⟩ | ⟨-, -, hvm⟩⟩
  · rw [hvm]
    exact hclean
  · rw [hvm]
    exact hclean
  · rw [hvm]
    exact ubpfLoad_clean _ _ s.code hclean

theorem compiledBy_inv (w : World) (call : ConfigureCall) (args : ConfArgs)
    (loaded : Loaded BpfMapCtx) (h : MachineInv cls w.element)
    (hload : loadedBy P cls w call args = some loaded) :
    Clean (compiledBy P cls w call loaded).vm ∧
      SameSetup (initUbpfVm cls) (compiledBy P cls w call loaded).vm := by
  rcases loadedBy_inv P cls w call args loaded h hload with ⟨hclean, hsetup⟩
  have hjit := (loadedBy_vm P cls w call args loaded hload).1
  unfold compiledBy
  cases herror : (ubpfCompile P.translate call.pages loaded.vm (unloaded cls w).2).error with
  | some e =>
      rcases ubpfCompile_failed P.translate call.pages loaded.vm _ e hjit herror with
        ⟨-, -, hsame, -, husage⟩
      refine ⟨⟨hsame.stackUsageCalculator.trans hclean.calculator, ?_⟩, hsetup.trans hsame⟩
      intro pc
      rw [husage]
      exact hclean.usage pc
  | none =>
      cases hview : loaded.vm.view with
      | none =>
          rw [ubpfCompile_empty P.translate call.pages loaded.vm _ hjit hview] at herror
          exact absurd herror (by simp only [reduceCtorEq, not_false_eq_true])
      | some program =>
          rcases ubpfCompile_ok P.translate call.pages loaded.vm _ program hjit hview herror with
            ⟨code, -, -, hvm, -⟩
          rw [hvm]
          exact ⟨⟨hclean.calculator, hclean.usage⟩,
            hsetup.1, hsetup.2, hsetup.3, hsetup.4, hsetup.5, hsetup.6⟩

-- The dump writes one field, and it is neither of the setup nor of the table.
theorem dumpedVm_inv (call : ConfigureCall) (e : Element) (vm : Vm)
    (h : Clean vm ∧ SameSetup (initUbpfVm cls) vm) :
    Clean (dumpedVm call e vm) ∧ SameSetup (initUbpfVm cls) (dumpedVm call e vm) := by
  unfold dumpedVm
  split
  · exact ⟨⟨h.1.calculator, h.1.usage⟩, h.2.1, h.2.2, h.2.3, h.2.4, h.2.5, h.2.6⟩
  · exact h

/-- No operation sets a machine up again or gives it a stack usage. -/
theorem machineInv_step (w w' : World) (e : Event) (h : MachineInv cls w.element)
    (hstep : step P cls w e = some w') : MachineInv cls w'.element := by
  cases e with
  | push p =>
      rcases step_push P cls w p w' hstep with ⟨ctx, ops, -, hw⟩
      rw [hw]
      exact h
  | configure call =>
      rcases (step_configure P cls w call w').mp hstep with ⟨r, hr⟩
      cases hr with
      | noArguments hconf => exact h
      | badArguments hconf hparse => exact h
      | unreadable args hconf hparse hfile => exact h
      | noVm args hconf hparse hfile hvm hcreated => exact h
      | loadFailed args loaded e hin hload herror =>
          exact machineInv_some cls _ loaded.vm rfl (loadedBy_inv P cls w call args loaded h hload)
      | rejected args loaded hin hload herror hsig =>
          exact machineInv_some cls _ loaded.vm rfl (loadedBy_inv P cls w call args loaded h hload)
      | compileFailed args loaded e hin hload herror hsig hjit hcompile =>
          exact machineInv_some cls _ _ rfl (compiledBy_inv P cls w call args loaded h hload)
      | interpreted args loaded hin hload herror hsig hjit =>
          exact machineInv_some cls _ _ rfl
            (dumpedVm_inv cls call _ _ (loadedBy_inv P cls w call args loaded h hload))
      | compiled args loaded hin hload herror hsig hjit hcompile =>
          exact machineInv_some cls _ _ rfl
            (dumpedVm_inv cls call _ _ (compiledBy_inv P cls w call args loaded h hload))

theorem machineInv_reachable (junk : Uninit) (as : AddressSpace) (w : World)
    (h : Steps.Reachable (releasing P cls) ⟨.new junk, as⟩ w) : MachineInv cls w.element := by
  refine h.invariant (fun w => MachineInv cls w.element) ?_ ?_
  · intro vm hvm
    exact absurd hvm (by simp only [Element.new, reduceCtorEq, not_false_eq_true])
  · intro w e w' hw hstep
    simp only [releasing, Option.map_eq_some_iff] at hstep
    rcases hstep with ⟨w'', hstep, hrelease⟩
    rw [← hrelease]
    exact machineInv_step P cls w w'' e hw hstep

/-- The path of a packet, by the mode and the loaded program. -/
def installedPath (jit : Bool) (size : Nat) (program : ProgramView) : Option ExecPath :=
  if jit then (P.translate size .basic program).map (.native jitWindow)
  else some (.interpreted program)

/-- What a successful call leaves packets to be run by. -/
theorem path_of_success (w w' : World) (call : ConfigureCall) (args : ConfArgs)
    (loaded : Loaded BpfMapCtx) (program : ProgramView)
    (hargs : P.parseArgs call.conf = some args)
    (hload : loadedBy P cls w call args = some loaded) (hview : loaded.vm.view = some program)
    (h : Returns P cls w call .success w') :
    w'.element.vm.bind Vm.view = some program ∧
      installedPath P (commitArgs args w.element).jit loaded.vm.jitterBufferSize program
        = some (execPath w') := by
  have hfresh := (loadedBy_vm P cls w call args loaded hload).1
  cases h with
  | interpreted args' loaded' hin hload' herror hsig hjit =>
      have heq : args' = args := Option.some.inj (hin.parsed.symm.trans hargs)
      rw [heq] at hload' hjit ⊢
      have hsame : loaded' = loaded := Option.some.inj (hload'.symm.trans hload)
      rw [hsame]
      rcases dumpedVm_view call (commitArgs args w.element) loaded.vm with ⟨hdump, -⟩
      refine ⟨hdump.trans hview, ?_⟩
      simp only [installedPath, hjit, Bool.false_eq_true, if_false, execPath, interpretedPath,
        configured, hdump, hview]
  | compiled args' loaded' hin hload' herror hsig hjit hcompile =>
      have heq : args' = args := Option.some.inj (hin.parsed.symm.trans hargs)
      rw [heq] at hload' hjit ⊢
      have hsame : loaded' = loaded := Option.some.inj (hload'.symm.trans hload)
      rw [hsame] at hcompile ⊢
      rw [compiledBy] at hcompile
      rcases ubpfCompile_ok P.translate call.pages loaded.vm (unloaded cls w).2 program hfresh hview
        hcompile with ⟨code, htrans, -, hvm, hread⟩
      rcases dumpedVm_view call (commitArgs args w.element)
        (compiledBy P cls w call loaded).vm with ⟨hdump, hfn, hsize, -⟩
      rw [compiledBy] at hdump hfn hsize ⊢
      -- The function pointer is the machine's own, and the code is at the window.
      have hjitted : (ubpfCompile P.translate call.pages loaded.vm (unloaded cls w).2).vm.jitted
          = some jitWindow := by
        rw [hvm]
      rw [hjitted] at hfn
      rw [hvm] at hsize
      refine ⟨?_, ?_⟩
      · simp only [configured, Option.bind_some, hdump]
        rw [hvm]
        exact hview
      · simp only [installedPath, hjit, if_true, htrans, Option.map_some, execPath, nativePath,
          configured, hjitted, hfn]
        rw [hvm, hsize, hread]

/-- A new element whose keyword members agree with those of another once the
    arguments of a call are committed. -/
structure NewLike (args : ConfArgs) (e e₀ : Element) : Prop where
  vm : e₀.vm = none
  lock : e₀.lock = .free
  jit : (commitArgs args e₀).jit = (commitArgs args e).jit
  bpfFile : (commitArgs args e₀).bpfFile = (commitArgs args e).bpfFile
  signatureFile : (commitArgs args e₀).signatureFile = (commitArgs args e).signatureFile

/-- Nothing is mapped at the window of the compiled code. -/
def WindowFree (as : AddressSpace) : Prop :=
  ∀ pages, as.isFree jitWindow pages = true

/-- The call as a new element makes it: a machine can be made, and the
    instructions are stored somewhere else. -/
def ConfigureCall.onNew (call : ConfigureCall) (base : Addr) : ConfigureCall :=
  { call with created := true, instsAddr := base }

/-- A new element has nothing to unload. -/
theorem unloaded_new (e₀ : Element) (as₀ : AddressSpace) (h : e₀.vm = none) :
    unloaded cls ⟨e₀, as₀⟩ = (initUbpfVm cls, as₀) := by
  rcases initUbpfVm_empty cls with ⟨hinsts, hjitted⟩
  simp only [unloaded, machineOf, h, Option.getD_none, ubpfUnloadCode, dropJitted, hjitted, hinsts]

/-- The call of a reachable element succeeds on a new one too, where the
    relocations get the same values. -/
theorem success_on_new (w w' : World) (call : ConfigureCall) (args : ConfArgs)
    (loaded : Loaded BpfMapCtx) (A₀ : Allocator Obj) (base₀ : Addr) (e₀ : Element)
    (as₀ : AddressSpace) (loaded₀ : Loaded BpfMapCtx) (program : ProgramView)
    (h : Returns P cls w call .success w') (hargs : P.parseArgs call.conf = some args)
    (hload : loadedBy P cls w call args = some loaded) (hnew : NewLike args w.element e₀)
    (hwindow : WindowFree as₀)
    (hload₀ : loadedBy { P with allocator := A₀ } cls ⟨e₀, as₀⟩ (call.onNew base₀) args
      = some loaded₀)
    (herror₀ : loaded₀.error = none) (hview : loaded.vm.view = some program)
    (hview₀ : loaded₀.vm.view = some program)
    (hsize : loaded₀.vm.jitterBufferSize = loaded.vm.jitterBufferSize) :
    ∃ w₀', Returns { P with allocator := A₀ } cls ⟨e₀, as₀⟩ (call.onNew base₀) .success w₀' := by
  have hsig₀ : signatureOk { P with allocator := A₀ } (call.onNew base₀) (commitArgs args e₀)
      = signatureOk P call (commitArgs args w.element) := by
    simp only [signatureOk, checkBpfVerificationSignature, ConfigureCall.onNew, hnew.bpfFile,
      hnew.signatureFile]
  -- The new element gets as far as the lock, which nobody holds.
  have hentered : ∀ args', Entered P w call args' → args' = args ∧
      Entered { P with allocator := A₀ } ⟨e₀, as₀⟩ (call.onNew base₀) args := by
    intro args' hin
    have heq : args' = args := Option.some.inj (hin.parsed.symm.trans hargs)
    refine ⟨heq, hin.conf, hargs, ?_, .inr rfl, hnew.lock⟩
    have hreadable := hin.readable
    rw [heq, fileOf] at hreadable
    simp only [fileOf, ConfigureCall.onNew, hnew.bpfFile]
    exact hreadable
  cases h with
  | interpreted args' loaded' hin hload' herror hsig hjit =>
      rcases hentered args' hin with ⟨heq, hin₀⟩
      rw [heq] at hsig hjit
      exact ⟨_, .interpreted args loaded₀ hin₀ hload₀ herror₀ (hsig₀.trans hsig)
        (hnew.jit.trans hjit)⟩
  | compiled args' loaded' hin hload' herror hsig hjit hcompile =>
      rcases hentered args' hin with ⟨heq, hin₀⟩
      rw [heq] at hsig hjit hload'
      have hsame : loaded' = loaded := Option.some.inj (hload'.symm.trans hload)
      rw [hsame, compiledBy] at hcompile
      have hfresh := (loadedBy_vm P cls w call args loaded hload).1
      have hfresh₀ := (loadedBy_vm _ cls _ _ args loaded₀ hload₀).1
      rcases ubpfCompile_ok P.translate call.pages loaded.vm _ program hfresh hview hcompile with
        ⟨code, htrans, ⟨hframes, hattrs, -⟩, -, -⟩
      -- The same translation, and the window of the new element is free.
      have hcompile₀ : (compiledBy { P with allocator := A₀ } cls ⟨e₀, as₀⟩ (call.onNew base₀)
          loaded₀).error = none := by
        rw [compiledBy, unloaded_new cls e₀ as₀ hnew.vm,
          ubpfCompile_fresh _ _ loaded₀.vm as₀ program hfresh₀ hview₀, hsize]
        simp only [htrans]
        exact installCode_error call.pages _ as₀ code hframes hattrs (hwindow _)
      exact ⟨_, .compiled args loaded₀ hin₀ hload₀ herror₀ (hsig₀.trans hsig)
        (hnew.jit.trans hjit) hcompile₀⟩

/-- For every life of an element, whatever it was configured with and however
    the calls ended, a call that succeeds on it succeeds on a new element with
    the same keyword members when the relocations get the same values, and
    then the two hold the same program and run packets by the same path. -/
theorem reconfigured_like_new (junk : Uninit) (as : AddressSpace) (w : World)
    (hreach : Steps.Reachable (releasing P cls) ⟨.new junk, as⟩ w) (call : ConfigureCall)
    (args : ConfArgs) (w' : World) (loaded : Loaded BpfMapCtx)
    (hcall : configure P cls w call = some (.returned .success w'))
    (hargs : P.parseArgs call.conf = some args)
    (hload : loadedBy P cls w call args = some loaded) (A₀ : Allocator Obj) (base₀ : Addr)
    (e₀ : Element) (as₀ : AddressSpace) (loaded₀ : Loaded BpfMapCtx)
    (hnew : NewLike args w.element e₀) (hwindow : WindowFree as₀)
    (hload₀ : loadedBy { P with allocator := A₀ } cls ⟨e₀, as₀⟩ (call.onNew base₀) args
      = some loaded₀)
    (hsame : loaded₀.calls.map RelocCall.result = loaded.calls.map RelocCall.result) :
    ∃ w₀' program,
      configure { P with allocator := A₀ } cls ⟨e₀, as₀⟩ (call.onNew base₀)
        = some (.returned .success w₀') ∧
      w'.element.vm.bind Vm.view = some program ∧ w₀'.element.vm.bind Vm.view = some program ∧
      execPath w₀' = execPath w' := by
  have hreturns := (configure_returned P cls w call .success w').mp hcall
  have hinv := machineInv_reachable P cls junk as w hreach
  have hinv₀ : MachineInv cls e₀ := by
    intro vm hvm
    rw [hnew.vm] at hvm
    exact absurd hvm (by simp only [reduceCtorEq, not_false_eq_true])
  have hok : loaded.error = none := by
    rcases returns_success P cls w call w' hreturns with ⟨args', loaded', hin, hload', herror⟩
    have heq : args' = args := Option.some.inj (hin.parsed.symm.trans hargs)
    rw [heq, hload, Option.some.injEq] at hload'
    rw [hload', herror]
  -- The two machines the file is loaded into are set up alike and clean.
  rcases unloaded_inv cls w hinv with ⟨hclean, hsetup⟩
  have hunloaded := unloaded_new cls e₀ as₀ hnew.vm
  have hfile : fileOf (call.onNew base₀) args ⟨e₀, as₀⟩ = fileOf call args w := by
    simp only [fileOf, ConfigureCall.onNew, hnew.bpfFile]
  have hbuffers := (loadedBy_inv P cls w call args loaded hinv hload).2.jitterBufferSize
  have hbuffers₀ := (loadedBy_inv _ cls _ _ args loaded₀ hinv₀ hload₀).2.jitterBufferSize
  have htwins : loaded₀.error = none ∧
      ∃ program, loaded.vm.view = some program ∧ loaded₀.vm.view = some program := by
    have hloads := hload
    have hloads₀ := hload₀
    rw [loadedBy, load] at hloads hloads₀
    rw [hfile, hunloaded] at hloads₀
    have hsetup₀ : SameSetup (unloaded cls w).1 (initUbpfVm cls) :=
      ⟨hsetup.1.symm, hsetup.2.symm, hsetup.3.symm, hsetup.4.symm, hsetup.5.symm, hsetup.6.symm⟩
    exact ubpfLoadElfEx_twin _ _ _ _ _ _ _ _ _ _ loaded loaded₀ hloads hloads₀ hclean
      (initUbpfVm_clean cls) hsetup₀ (initUbpfVm_empty cls).1 hsame hok
  rcases htwins with ⟨herror₀, program, hview, hview₀⟩
  rcases success_on_new P cls w w' call args loaded A₀ base₀ e₀ as₀ loaded₀ program hreturns hargs
    hload hnew hwindow hload₀ herror₀ hview hview₀ (hbuffers₀.trans hbuffers.symm) with
    ⟨w₀', hreturns₀⟩
  rcases path_of_success P cls w w' call args loaded program hargs hload hview hreturns with
    ⟨hholds, hpath⟩
  rcases path_of_success { P with allocator := A₀ } cls ⟨e₀, as₀⟩ w₀' (call.onNew base₀) args
    loaded₀ program hargs hload₀ hview₀ hreturns₀ with ⟨hholds₀, hpath₀⟩
  refine ⟨w₀', program, (configure_returned _ cls _ _ .success w₀').mpr hreturns₀, hholds, hholds₀,
    ?_⟩
  -- Both paths are the one of the common mode and the common program.
  rw [hnew.jit, hbuffers₀, ← hbuffers] at hpath₀
  have hpaths : installedPath P (commitArgs args w.element).jit loaded.vm.jitterBufferSize program
      = some (execPath w₀') := hpath₀
  rw [hpath, Option.some.injEq] at hpaths
  exact hpaths.symm

/-! ## Two calls, the second without a mode -/

/-- The arguments of a call that only names a file. -/
def fileOnly : ConfArgs :=
  ⟨none, none, none, some (helperName "drop"), none⟩

/-- A compiled filter is replaced by a call that does not mention the mode. -/
def sampleReconfigured : Option World :=
  releasing (samplePlatform none) .bpfilter sampleWorld
    (.configure (sampleCall ["ID 1", "JIT true", "FILE pass"]))

theorem sampleReconfigured_reachable (w : World) (h : sampleReconfigured = some w) :
    Steps.Reachable (releasing (samplePlatform none) .bpfilter) sampleWorld w :=
  ⟨[.configure (sampleCall ["ID 1", "JIT true", "FILE pass"])], by
    rw [Steps.run_cons _ _ w _ _ h]
    rfl⟩

/-- A compiled filter, replaced by a call without a mode, and a new element
    whose mode happens to be the same. -/
theorem filter_like_new :
    ∃ w w' w₀' program, sampleReconfigured = some w ∧
      configure (samplePlatform none) .bpfilter w (sampleCall ["FILE drop"])
        = some (.returned .success w') ∧
      configure (samplePlatform none) .bpfilter ⟨.new ⟨7, true, true, none⟩, sampleWorld.space⟩
        ((sampleCall ["FILE drop"]).onNew 0x300000) = some (.returned .success w₀') ∧
      w'.element.vm.bind Vm.view = some program ∧ w₀'.element.vm.bind Vm.view = some program ∧
      execPath w₀' = execPath w' := by
  have hall : (sampleReconfigured.any fun w =>
      decide (w.element.jit = true ∧ w.element.signatureFile = []) &&
      Outcome.test (fun r _ => decide (r = .success))
        (configure (samplePlatform none) .bpfilter w (sampleCall ["FILE drop"])) &&
      (loadedBy (samplePlatform none) .bpfilter w (sampleCall ["FILE drop"]) fileOnly).any fun l =>
        (loadedBy (samplePlatform none) .bpfilter ⟨.new ⟨7, true, true, none⟩, sampleWorld.space⟩
          ((sampleCall ["FILE drop"]).onNew 0x300000) fileOnly).any fun l₀ =>
        decide (l₀.calls.map RelocCall.result = l.calls.map RelocCall.result)) = true := by
    decide +kernel
  rcases (Option.any_eq_true _ _).mp hall with ⟨w, hw, htest⟩
  rcases (Bool.and_eq_true _ _).mp htest with ⟨htest, hloads⟩
  rcases (Bool.and_eq_true _ _).mp htest with ⟨hmembers, hcall⟩
  rcases of_decide_eq_true hmembers with ⟨hjit, hsignature⟩
  rcases Outcome.of_test _ _ hcall with ⟨r, w', hcall, hsuccess⟩
  rw [of_decide_eq_true hsuccess] at hcall
  rcases (Option.any_eq_true _ _).mp hloads with ⟨loaded, hload, hloads⟩
  rcases (Option.any_eq_true _ _).mp hloads with ⟨loaded₀, hload₀, hsame⟩
  have hnew : NewLike fileOnly w.element (.new ⟨7, true, true, none⟩) :=
    ⟨rfl, rfl, hjit.symm, rfl, hsignature.symm⟩
  have hwindow : WindowFree sampleWorld.space := by
    intro pages
    rw [AddressSpace.isFree, List.all_eq_true]
    intro i _
    rfl
  rcases reconfigured_like_new (samplePlatform none) .bpfilter _ _ w
    (sampleReconfigured_reachable w hw) (sampleCall ["FILE drop"]) fileOnly w' loaded hcall
    (by decide +kernel) hload (samplePlatform none).allocator 0x300000 _ _ loaded₀ hnew hwindow
    hload₀ (of_decide_eq_true hsame) with ⟨w₀', program, hcall₀, hholds, hholds₀, hpath⟩
  exact ⟨w, w', w₀', program, hw, hcall, hcall₀, hholds, hholds₀, hpath⟩

/-- A compiled filter that is replaced without mention of the mode stays
    compiled, where a new element given the same call interprets. -/
theorem mode_outlives_call :
    ¬ ∀ (P : Platform) (cls : ElementClass) (junk : Uninit) (as : AddressSpace) (w w' w₀' : World)
      (call : ConfigureCall) (args : ConfArgs) (loaded loaded₀ : Loaded BpfMapCtx),
      Steps.Reachable (releasing P cls) ⟨.new junk, as⟩ w →
      configure P cls w call = some (.returned .success w') →
      P.parseArgs call.conf = some args →
      loadedBy P cls w call args = some loaded →
      configure P cls ⟨.new junk, as⟩ call = some (.returned .success w₀') →
      loadedBy P cls ⟨.new junk, as⟩ call args = some loaded₀ →
      loaded₀.calls.map RelocCall.result = loaded.calls.map RelocCall.result →
      execPath w₀' = execPath w' := by
  intro hclaim
  have hall : (sampleReconfigured.any fun w =>
      (loadedBy (samplePlatform none) .bpfilter w (sampleCall ["FILE drop"]) fileOnly).any fun l =>
      (loadedBy (samplePlatform none) .bpfilter sampleWorld (sampleCall ["FILE drop"])
        fileOnly).any fun l₀ =>
      decide (l₀.calls.map RelocCall.result = l.calls.map RelocCall.result) &&
      Outcome.test (fun r w' => decide (r = .success) &&
          Outcome.test (fun r₀ w₀' => decide (r₀ = .success ∧ execPath w₀' ≠ execPath w'))
            (configure (samplePlatform none) .bpfilter sampleWorld (sampleCall ["FILE drop"])))
        (configure (samplePlatform none) .bpfilter w (sampleCall ["FILE drop"]))) = true := by
    decide +kernel
  rcases (Option.any_eq_true _ _).mp hall with ⟨w, hw, htest⟩
  rcases (Option.any_eq_true _ _).mp htest with ⟨loaded, hload, htest⟩
  rcases (Option.any_eq_true _ _).mp htest with ⟨loaded₀, hload₀, htest⟩
  rcases (Bool.and_eq_true _ _).mp htest with ⟨hsame, htest⟩
  rcases Outcome.of_test _ _ htest with ⟨r, w', hcall, htest⟩
  rcases (Bool.and_eq_true _ _).mp htest with ⟨hsuccess, htest⟩
  rcases Outcome.of_test _ _ htest with ⟨r₀, w₀', hcall₀, htest⟩
  rcases of_decide_eq_true htest with ⟨hsuccess₀, hother⟩
  rw [of_decide_eq_true hsuccess] at hcall
  rw [hsuccess₀] at hcall₀
  exact hother (hclaim (samplePlatform none) .bpfilter _ _ w w' w₀' (sampleCall ["FILE drop"])
    fileOnly loaded loaded₀ (sampleReconfigured_reachable w hw) hcall (by decide +kernel) hload
    hcall₀ hload₀ (of_decide_eq_true hsame))

end UniBPF
