import UniBPF.Theory.NativeEntry
import UniBPF.Theory.Disassembly
import UniBPF.Theory.ValidRuns
import UniBPF.Theory.Reconfigure

/-!
# Packets Run by Compiled Code

The element decides whether packets are run by the interpreter or by compiled
code. In whatever way it was configured, the two agree: the program has been
checked when it was loaded, the code that the function pointer leads to is
the translation of just this program, and calling it returns what the
interpreter returns.

## Main definitions

* `Programmed`: What is known of the machine of an element at all times.

## Theorems

* `programmed_step`, `programmed_reachable`: It is kept by every operation.
* `element_runs`: How a run by the interpreter ends without a value.
* `native_element`: A packet run by compiled code gets what the interpreter
  would have given it.
* `native_element_runs`: The two are at the same place at all times.
-/

namespace UniBPF

open LittleEndian X86 Relocations

variable (P : Platform) (cls : ElementClass)

/-- A machine whose program is checked, and whose compiled code is the
    translation of the program. -/
structure Programmed (vm : Vm) (as : AddressSpace) : Prop where
  setup : Clean vm ∧ SameSetup (initUbpfVm cls) vm
  validated : ∀ program, vm.view = some program → Validated program
  owns : OwnsCode P.translate vm as

/-- A load leaves a checked program or none. -/
theorem loadedBy_validated (w : World) (call : ConfigureCall) (args : ConfArgs)
    (loaded : Loaded BpfMapCtx) (h : MachineInv cls w.element)
    (hload : loadedBy P cls w call args = some loaded) (program : ProgramView)
    (hview : loaded.vm.view = some program) : Validated program := by
  cases herror : loaded.error with
  | some e =>
      have hnone := (loadedBy_vm P cls w call args loaded hload).2.2.2 e herror
      rw [Vm.view, hnone] at hview
      exact absurd hview (by simp only [Option.map_none, reduceCtorEq, not_false_eq_true])
  | none =>
      rcases ubpfLoadElfEx_success _ _ _ _ _ _ loaded hload herror with
        ⟨layout, s, -, -, -, -, -, hok, hvm⟩
      rw [hvm] at hview
      exact load_validated _ _ _ program (unloaded_inv cls w h).1 hok hview

theorem loadedBy_programmed (w : World) (call : ConfigureCall) (args : ConfArgs)
    (loaded : Loaded BpfMapCtx) (h : MachineInv cls w.element)
    (hload : loadedBy P cls w call args = some loaded) (as : AddressSpace) :
    Programmed P cls loaded.vm as :=
  ⟨loadedBy_inv P cls w call args loaded h hload,
    loadedBy_validated P cls w call args loaded h hload,
    ownsCode_of_none _ _ _ (loadedBy_vm P cls w call args loaded hload).1⟩

/-- Compiling does not change the program. -/
theorem compiledBy_view (w : World) (call : ConfigureCall) (args : ConfArgs)
    (loaded : Loaded BpfMapCtx) (hload : loadedBy P cls w call args = some loaded) :
    (compiledBy P cls w call loaded).vm.view = loaded.vm.view := by
  have hjit := (loadedBy_vm P cls w call args loaded hload).1
  unfold compiledBy
  cases herror : (ubpfCompile P.translate call.pages loaded.vm (unloaded cls w).2).error with
  | some e => exact (ubpfCompile_failed _ _ _ _ e hjit herror).2.1
  | none =>
      cases hview : loaded.vm.view with
      | none =>
          rw [ubpfCompile_empty _ _ _ _ hjit hview]
          exact hview
      | some program =>
          rcases ubpfCompile_ok _ _ _ _ program hjit hview herror with ⟨code, -, -, hvm, -⟩
          rw [hvm]
          exact hview

theorem compiledBy_programmed (w : World) (call : ConfigureCall) (args : ConfArgs)
    (loaded : Loaded BpfMapCtx) (h : MachineInv cls w.element)
    (hload : loadedBy P cls w call args = some loaded) :
    Programmed P cls (compiledBy P cls w call loaded).vm (compiledBy P cls w call loaded).space :=
  ⟨compiledBy_inv P cls w call args loaded h hload,
    fun program hview => loadedBy_validated P cls w call args loaded h hload program
      ((compiledBy_view P cls w call args loaded hload).symm.trans hview),
    ownsCode_compile _ _ _ _ (loadedBy_vm P cls w call args loaded hload).1⟩

theorem dumpedVm_programmed (call : ConfigureCall) (e : Element) (vm : Vm) (as : AddressSpace)
    (h : Programmed P cls vm as) : Programmed P cls (dumpedVm call e vm) as := by
  refine ⟨dumpedVm_inv cls call e vm h.setup, fun program hview => h.validated program ?_, ?_⟩
  · rw [← hview, dumpedVm]
    split
    next => rfl
    next => rfl
  · rw [dumpedVm]
    split
    next => exact ownsCode_dump _ _ _ _ h.owns
    next => exact h.owns

/-- What is known of an element at all times. -/
def ElementProgrammed (w : World) : Prop :=
  ∀ vm, w.element.vm = some vm → Programmed P cls vm w.space

theorem elementProgrammed_some (w : World) (vm : Vm) (hvm : w.element.vm = some vm)
    (h : Programmed P cls vm w.space) : ElementProgrammed P cls w := by
  intro vm' hvm'
  rw [hvm, Option.some.injEq] at hvm'
  rw [← hvm']
  exact h

theorem programmed_step (w w' : World) (e : Event) (h : ElementProgrammed P cls w)
    (hstep : step P cls w e = some w') : ElementProgrammed P cls w' := by
  have hinv : MachineInv cls w.element := fun vm hvm => (h vm hvm).setup
  cases e with
  -- A packet does not touch the machine.
  | push p =>
      rcases step_push P cls w p w' hstep with ⟨ctx, ops, -, hw⟩
      rw [hw]
      exact h
  | configure call =>
      rcases (step_configure P cls w call w').mp hstep with ⟨r, hr⟩
      cases hr with
      | noArguments hconf => exact h
      | badArguments hconf hparse => exact h
      | unreadable args hconf hparse hfile => exact h
      | noVm args hconf hparse hfile hvm hcreated => exact h
      | loadFailed args loaded e hin hload herror =>
          exact elementProgrammed_some P cls _ loaded.vm rfl
            (loadedBy_programmed P cls w call args loaded hinv hload _)
      | rejected args loaded hin hload herror hsig =>
          exact elementProgrammed_some P cls _ loaded.vm rfl
            (loadedBy_programmed P cls w call args loaded hinv hload _)
      | compileFailed args loaded e hin hload herror hsig hjit hcompile =>
          exact elementProgrammed_some P cls _ _ rfl
            (compiledBy_programmed P cls w call args loaded hinv hload)
      | interpreted args loaded hin hload herror hsig hjit =>
          exact elementProgrammed_some P cls _ _ rfl (dumpedVm_programmed P cls call _ _ _
            (loadedBy_programmed P cls w call args loaded hinv hload _))
      | compiled args loaded hin hload herror hsig hjit hcompile =>
          exact elementProgrammed_some P cls _ _ rfl (dumpedVm_programmed P cls call _ _ _
            (compiledBy_programmed P cls w call args loaded hinv hload))

theorem programmed_reachable (junk : Uninit) (as : AddressSpace) (w : World)
    (h : Steps.Reachable (step P cls) ⟨.new junk, as⟩ w) : ElementProgrammed P cls w := by
  refine h.invariant (ElementProgrammed P cls) ?_ ?_
  · intro vm hvm
    exact absurd hvm (by simp only [Element.new, reduceCtorEq, not_false_eq_true])
  · intro w e w' hw hstep
    exact programmed_step P cls w w' e hw hstep

/-- The compiled code a packet is run by is the translation of the program the
    interpreter would run. -/
theorem native_program (junk : Uninit) (as : AddressSpace) (w : World)
    (hreach : Steps.Reachable (step P cls) ⟨.new junk, as⟩ w) (fn : Addr) (code : Bytes)
    (hpath : nativePath w.element w.space = .native fn code) :
    ∃ program, interpretedPath w.element = .interpreted program ∧ Validated program ∧
      fn = jitWindow ∧ P.translate (128 * 1024) .basic program = some code := by
  have hinv := programmed_reachable P cls junk as w hreach
  unfold nativePath at hpath
  split at hpath
  next fn' vm hfn hvm =>
    have hprogrammed := hinv vm hvm
    split at hpath
    next hjitted =>
      rcases hprogrammed.owns fn' hjitted with ⟨hwindow, program, code', hview, htrans, -, hread⟩
      rw [hread] at hpath
      simp only [ExecPath.native.injEq] at hpath
      rcases hpath with ⟨rfl, rfl⟩
      have hsize : vm.jitterBufferSize = 128 * 1024 := by
        rw [hprogrammed.setup.2.jitterBufferSize]
        cases cls with
        | bpfilter => rfl
        | bpfclassifier => rfl
        | bpfrewriter => rfl
      refine ⟨program, ?_, hprogrammed.validated program hview, hwindow, ?_⟩
      · simp only [interpretedPath, hvm, hview]
      · rw [← hsize]
        exact htrans
    next => exact absurd hpath (by simp only [reduceCtorEq, not_false_eq_true])
  next => exact absurd hpath (by simp only [reduceCtorEq, not_false_eq_true])

/-- In whatever way the element was configured before, a run by the interpreter
    fails past the last instruction, in the second half of a load that is
    called and at a local call with no frame left, and crashes where it touches
    memory that is not there. It does not end without a value otherwise. -/
theorem element_runs (junk : Uninit) (as : AddressSpace) (w : World)
    (hreach : Steps.Reachable (step P cls) ⟨.new junk, as⟩ w) (program : ProgramView)
    (hpath : interpretedPath w.element = .interpreted program) (ext : Externals)
    (regs : Nat → Word) (mem : Memory) (packet packetLen stackStart : Word)
    (stackLength n : Nat) (s : ExecState)
    (hrun : execFor program ext n
      (execStart regs mem packet packetLen stackStart stackLength) = .running s) :
    (execStep program ext s = .failed ↔ s.pc = program.insts.length ∨
      CalledAt program s.pc ∧ ¬ IsStart program.insts s.pc ∨ TooDeep program s) ∧
    (execStep program ext s = .crashed ↔ Faults program ext s) := by
  have hprogrammed := programmed_reachable P cls junk as w hreach
  unfold interpretedPath at hpath
  split at hpath
  next => exact absurd hpath (by simp only [reduceCtorEq, not_false_eq_true])
  next vm hvm =>
    split at hpath
    next program' hview =>
      rw [ExecPath.interpreted.injEq] at hpath
      subst hpath
      -- The program was checked when it was loaded, and has not changed since.
      have hvalidated := (hprogrammed vm hvm).validated program' hview
      have hinv := hvalidated.runInv_run n
        (runInv_start regs mem packet packetLen stackStart stackLength) hrun
      exact ⟨hvalidated.execStep_failed s hinv, hvalidated.execStep_crashed s⟩
    next => exact absurd hpath (by simp only [reduceCtorEq, not_false_eq_true])

/-- The call of compiled code that the element makes. Nothing is asked of how
    the element got where it is; what is asked is of the program, of the host
    and of the call. -/
structure NativeCall (host : HostAddresses) (program : ProgramView) (ext : Externals)
    (fn : Addr) (code : Bytes) (g : Ground) (calls : HostCode) (need : Nat) (mem : Memory)
    (ret : Word) (c : Cpu) : Prop where
  bases : BasesOk program.insts
  avoids : AvoidsRetpoline program
  complete : Complete host program (128 * 1024) .basic
  dispatcher : host.dispatcher = 0
  loaded : CodeAt g calls (BitVec.ofNat 64 fn) code
  helpers : HelpersServe calls host program ext need
  enough : 128 ≤ need
  room : 72 + need ≤ g.room
  stack : c.regs rsp = g.sp 1
  memory : Holds g mem [ret] c.mem

/-- What the call of a reachable element is about. -/
theorem NativeCall.compiles {host : HostAddresses} {program : ProgramView} {ext : Externals}
    {fn : Addr} {code : Bytes} {g : Ground} {calls : HostCode} {need : Nat} {mem : Memory}
    {ret : Word} {c : Cpu} (h : NativeCall host program ext fn code g calls need mem ret c)
    (htrans : translatorX86 host (128 * 1024) .basic program = some code) :
    Compiles host (128 * 1024) .basic program code := by
  rw [translatorX86] at htrans
  have hok : ubpfTranslateX86 host (128 * 1024) .basic program = .ok code := by
    cases hcode : ubpfTranslateX86 host (128 * 1024) .basic program with
    | error e =>
        rw [hcode] at htrans
        exact absurd htrans (by simp only [Except.toOption, reduceCtorEq, not_false_eq_true])
    | ok code' =>
        rw [hcode] at htrans
        exact congrArg Except.ok (Option.some.inj htrans)
  exact ⟨h.bases, h.avoids, h.complete, hok, by norm_num, h.dispatcher⟩

/-- A packet that is run by compiled code gets what the interpreter gives it:
    in whatever way the element was configured before, the code is the
    translation of the validated program the interpreter would run, and the
    call returns what the program returns there, and changes the same
    memory. -/
theorem native_element (host : HostAddresses) (hP : P.translate = translatorX86 host)
    (junk : Uninit) (as : AddressSpace) (w : World)
    (hreach : Steps.Reachable (step P cls) ⟨.new junk, as⟩ w) (fn : Addr) (code : Bytes)
    (hpath : nativePath w.element w.space = .native fn code) :
    ∃ program, interpretedPath w.element = .interpreted program ∧ Validated program ∧
      P.translate (128 * 1024) .basic program = some code ∧
      ∀ (ext : Externals) (g : Ground) (calls : HostCode) (need : Nat) (mem : Memory) (ret : Word)
        (c : Cpu) (v : Word) (mem' : Memory),
        NativeCall host program ext fn code g calls need mem ret c →
        Ends program ext (startState .basic g c mem) v mem' →
        (∃ n, execFor program ext n (startState .basic g c mem) = .returned v) ∧
        ∃ c', Returned g c v mem' c' ∧ Relation.ReflTransGen
          (fun s s' => nativeStep calls s = some s') ⟨c, BitVec.ofNat 64 fn⟩ ⟨c', ret⟩ := by
  rcases native_program P cls junk as w hreach fn code hpath with
    ⟨program, hinterpreted, hvalidated, -, htrans⟩
  refine ⟨program, hinterpreted, hvalidated, htrans,
    fun ext g calls need mem ret c v mem' hcall hends => ⟨hends.returns, ?_⟩⟩
  rw [hP] at htrans
  exact native_returns hvalidated (hcall.compiles htrans) hcall.loaded hcall.helpers hcall.enough
    hcall.room hcall.stack hcall.memory hends

/-- A packet that is still being run, also one that will be for ever: after any
    number of instructions the compiled code is where the interpreter is, with
    the same values in the registers and the same memory. -/
theorem native_element_runs (host : HostAddresses) (hP : P.translate = translatorX86 host)
    (junk : Uninit) (as : AddressSpace) (w : World)
    (hreach : Steps.Reachable (step P cls) ⟨.new junk, as⟩ w) (fn : Addr) (code : Bytes)
    (hpath : nativePath w.element w.space = .native fn code) :
    ∃ program, interpretedPath w.element = .interpreted program ∧
      ∀ (ext : Externals) (g : Ground) (calls : HostCode) (need : Nat) (mem : Memory) (ret : Word)
        (c : Cpu) (n : Nat), NativeCall host program ext fn code g calls need mem ret c →
        GoesOn program ext n (startState .basic g c mem) →
        ∃ s c', Goes program ext n (startState .basic g c mem) s ∧ Mirrors s c' ∧
          Relation.ReflTransGen (fun s s' => nativeStep calls s = some s') ⟨c, BitVec.ofNat 64 fn⟩
            ⟨c', BitVec.ofNat 64 fn + BitVec.ofNat 64 (instAt program .basic s.pc)⟩ := by
  rcases native_program P cls junk as w hreach fn code hpath with
    ⟨program, hinterpreted, hvalidated, -, htrans⟩
  rw [hP] at htrans
  refine ⟨program, hinterpreted, fun ext g calls need mem ret c n hcall hgoes => ?_⟩
  exact native_goes hvalidated (hcall.compiles htrans) hcall.loaded hcall.helpers hcall.enough
    hcall.room hcall.stack hcall.memory n hgoes

section Sample

/-- A host without helpers. -/
def bareHost : HostAddresses := ⟨0, fun _ => 0⟩

def nativePlatform : Platform :=
  { samplePlatform none with translate := translatorX86 bareHost }

/-- The program of the sample that lets a packet pass. -/
def passProgram : ProgramView :=
  programOf (initUbpfVm .bpfilter) [0xb7, 0, 0, 0, 2, 0, 0, 0, 0x95, 0, 0, 0, 0, 0, 0, 0]

theorem window_small : 8 * 256 < 2 ^ 63 := by norm_num

/-- The window is far from the stack. -/
theorem window_apart (code : Bytes) (h : code.length ≤ 4096) (a : Word) (b : UInt8)
    (hb : code[(a - BitVec.ofNat 64 jitWindow).toNat]? = some b) :
    ¬ (0 < depth 0x10000 a ∧ depth 0x10000 a ≤ 8 * 256) := by
  intro hbelow
  have hlt := (List.getElem?_eq_some_iff.mp hb).1
  rw [depth, jitWindow] at *
  bv_omega

/-- Memory with code in the window and a stack of zeros. -/
def windowGround (code : Bytes) (h : code.length ≤ 4096) : Ground where
  fixed := fun a => code[(a - BitVec.ofNat 64 jitWindow).toNat]?
  top := 0x10000
  room := 256
  small := window_small
  apart := window_apart code h

def windowMemory (code : Bytes) : Memory := fun a =>
  if 0 < depth (0x10000 : Word) a ∧ depth (0x10000 : Word) a ≤ 2048 then some 0
  else code[(a - BitVec.ofNat 64 jitWindow).toNat]?

def windowCpu (code : Bytes) : Cpu where
  regs := fun r => if r = rsp then 0xfff8 else 0
  flags := none
  mem := windowMemory code

theorem windowMemory_holds (code : Bytes) (h : code.length ≤ 4096) :
    Holds (windowGround code h) (fun _ => none) [0] (windowMemory code) where
  seen := by
    intro a ha
    have hfree : ¬ (0 < depth (0x10000 : Word) a ∧ depth (0x10000 : Word) a ≤ 2048) :=
      fun hbelow => ha (Or.inr hbelow)
    rw [windowMemory, if_neg hfree]
    by_contra hsome
    exact ha (Or.inl hsome)
  hidden := fun _ _ => rfl
  fixed := by
    intro a b hb
    have hfree : ¬ (0 < depth (0x10000 : Word) a ∧ depth (0x10000 : Word) a ≤ 2048) :=
      (windowGround code h).apart a b hb
    rw [windowMemory, if_neg hfree]
    exact hb
  mapped := by
    intro a ha
    have hbelow : 0 < depth (0x10000 : Word) a ∧ depth (0x10000 : Word) a ≤ 2048 := ha
    rw [windowMemory, if_pos hbelow]
    exact Option.some_ne_none _
  words := by
    refine ⟨fun a hlow hhigh => ?_, trivial⟩
    have hbelow : 0 < depth (0x10000 : Word) a ∧ depth (0x10000 : Word) a ≤ 2048 :=
      ⟨hlow, le_trans hhigh (Nat.le_of_ble_eq_true rfl)⟩
    have hzero : ∀ k, byteOf (0 : Word).toNat k = 0 := by
      intro k
      have hdiv : (0 : Word).toNat / 256 ^ k = 0 := Nat.zero_div _
      rw [byteOf, hdiv]
      rfl
    rw [windowMemory, if_pos hbelow, hzero]
  fits := Nat.le_of_ble_eq_true rfl

theorem windowCpu_sp (code : Bytes) (h : code.length ≤ 4096) :
    (windowCpu code).regs rsp = (windowGround code h).sp 1 := by
  simp only [windowCpu, windowGround, Ground.sp, if_true]
  decide

theorem windowCpu_holds (code : Bytes) (h : code.length ≤ 4096) :
    Holds (windowGround code h) (fun _ => none) [0] (windowCpu code).mem := by
  have hmem : (windowCpu code).mem = windowMemory code := by
    rw [windowCpu]
  rw [hmem]
  exact windowMemory_holds code h

theorem codeAt_window (code : Bytes) (h : code.length ≤ 4096) (calls : HostCode)
    (hcalls : calls = fun _ => none) :
    CodeAt (windowGround code h) calls (BitVec.ofNat 64 jitWindow) code where
  loaded := by
    intro k b hb
    have hlt := (List.getElem?_eq_some_iff.mp hb).1
    have hplace : (BitVec.ofNat 64 jitWindow + BitVec.ofNat 64 k - BitVec.ofNat 64 jitWindow).toNat
        = k := by
      rw [jitWindow]
      bv_omega
    simp only [windowGround]
    rw [hplace]
    exact hb
  inside := fun _ _ => by rw [hcalls]

/-- The program ends after two instructions. -/
theorem passProgram_ends (g : Ground) (c : Cpu) (mem : Memory) :
    Ends passProgram (fun _ _ _ => none) (startState .basic g c mem) 2
      (startState .basic g c mem).mem :=
  Ends.running _ _ _ _ rfl (fun _ => Ends.returned _ _ rfl)

theorem passProgram_bases : BasesOk passProgram.insts :=
  basesOk_of_access _ (by decide +kernel)

theorem passProgram_avoids : AvoidsRetpoline passProgram := by
  have hall : ∀ inst ∈ passProgram.insts, (Opcode.decode inst.opcode).all
    fun op => !op.isJump := by decide +kernel
  intro i inst op hinst hop hjump
  have hno := hall inst (List.mem_of_getElem? hinst)
  rw [hop, Option.all_some, hjump] at hno
  exact absurd hno Bool.false_ne_true

/-- Short code in the window. -/
def ExecPath.isShort : ExecPath → Bool
  | .native fn code => fn = jitWindow && code.length ≤ 4096
  | _ => false

theorem passProgram_complete : Complete bareHost passProgram (128 * 1024) .basic :=
  (complete_iff _ _ _ _).mpr (by decide +kernel)

theorem passProgram_compiled : Outcome.test (fun _ w =>
    decide (interpretedPath w.element = .interpreted passProgram) &&
    (nativePath w.element w.space).isShort)
    (configure nativePlatform .bpfilter sampleWorld
      (sampleCall ["ID 1", "JIT true", "FILE pass"])) = true := by
  decide +kernel

/-- The element that lets packets pass, once configured. -/
theorem passProgram_reached :
    ∃ w code, Steps.Reachable (step nativePlatform .bpfilter) sampleWorld w ∧
      interpretedPath w.element = .interpreted passProgram ∧
      nativePath w.element w.space = .native jitWindow code ∧ code.length ≤ 4096 := by
  rcases Outcome.of_test _ _ passProgram_compiled with ⟨r, w, hcall, hcheck⟩
  rw [Bool.and_eq_true, decide_eq_true_eq] at hcheck
  rcases hcheck with ⟨hinterpreted, hshort⟩
  have hreach : Steps.Reachable (step nativePlatform .bpfilter) sampleWorld w := by
    refine ⟨[.configure (sampleCall ["ID 1", "JIT true", "FILE pass"])], ?_⟩
    have hstep : step nativePlatform .bpfilter sampleWorld
        (.configure (sampleCall ["ID 1", "JIT true", "FILE pass"])) = some w := by
      simp only [step, hcall]
    rw [Steps.run_cons _ _ w _ _ hstep]
    rfl
  cases hpath : nativePath w.element w.space with
  | native fn code =>
      rw [hpath, ExecPath.isShort, Bool.and_eq_true, decide_eq_true_eq, decide_eq_true_eq] at hshort
      rcases hshort with ⟨rfl, hshort⟩
      exact ⟨w, code, hreach, hinterpreted, hpath, hshort⟩
  | interpreted program =>
      rw [hpath] at hshort
      exact absurd hshort Bool.false_ne_true
  | noCode =>
      rw [hpath] at hshort
      exact absurd hshort Bool.false_ne_true
  | wild =>
      rw [hpath] at hshort
      exact absurd hshort Bool.false_ne_true

theorem passProgram_call (code : Bytes) (h : code.length ≤ 4096) :
    NativeCall bareHost passProgram (fun _ _ _ => none) jitWindow code (windowGround code h)
      (fun _ => none) 128 (fun _ => none) 0 (windowCpu code) where
  bases := passProgram_bases
  avoids := passProgram_avoids
  complete := passProgram_complete
  dispatcher := rfl
  loaded := codeAt_window code h _ rfl
  helpers := fun t _ _ => ⟨fun _ _ _ _ _ _ _ _ _ _ _ hext =>
    absurd hext (Option.some_ne_none _).symm⟩
  enough := le_refl 128
  room := show 72 + 128 ≤ 256 by norm_num
  stack := windowCpu_sp code h
  memory := windowCpu_holds code h

/-- The first instruction of a packet that passes, run by the interpreter. -/
theorem element_runs_pass :
    ∃ w s, Steps.Reachable (step nativePlatform .bpfilter) sampleWorld w ∧
      interpretedPath w.element = .interpreted passProgram ∧
      execFor passProgram (fun _ _ _ => none) 1
        (execStart (fun _ => 0) (fun _ => none) 0 0 0x1000 ebpfStackSize) = .running s ∧
      (execStep passProgram (fun _ _ _ => none) s = .failed ↔ s.pc = passProgram.insts.length ∨
        CalledAt passProgram s.pc ∧ ¬ IsStart passProgram.insts s.pc ∨ TooDeep passProgram s) ∧
      (execStep passProgram (fun _ _ _ => none) s = .crashed ↔
        Faults passProgram (fun _ _ _ => none) s) := by
  rcases passProgram_reached with ⟨w, -, hreach, hpath, -⟩
  exact ⟨w, _, hreach, hpath, rfl, element_runs nativePlatform .bpfilter _ _ w hreach passProgram
    hpath _ _ _ 0 0 0x1000 _ 1 _ rfl⟩

/-- A packet that passes, run by compiled code. -/
theorem native_element_pass :
    ∃ w code, ∃ h : code.length ≤ 4096,
      Steps.Reachable (step nativePlatform .bpfilter) sampleWorld w ∧
      nativePath w.element w.space = .native jitWindow code ∧ Validated passProgram ∧
      nativePlatform.translate (128 * 1024) .basic passProgram = some code ∧
      ∃ c', Returned (windowGround code h) (windowCpu code) 2
          (startState .basic (windowGround code h) (windowCpu code) (fun _ => none)).mem c' ∧
        Relation.ReflTransGen (fun s s' => nativeStep (fun _ => none) s = some s')
          ⟨windowCpu code, BitVec.ofNat 64 jitWindow⟩ ⟨c', 0⟩ := by
  rcases passProgram_reached with ⟨w, code, hreach, hinterpreted, hpath, hshort⟩
  rcases native_element nativePlatform .bpfilter bareHost rfl _ _ w hreach jitWindow code hpath
    with ⟨program, hprogram, hvalidated, htrans, hrun⟩
  rw [hinterpreted, ExecPath.interpreted.injEq] at hprogram
  subst hprogram
  have hends := passProgram_ends (windowGround code hshort) (windowCpu code) (fun _ => none)
  have hreturns := hrun _ _ _ _ _ _ _ 2 _ (passProgram_call code hshort) hends
  exact ⟨w, code, hshort, hreach, hpath, hvalidated, htrans, hreturns.2⟩

/-- The same packet after its first instruction. -/
theorem native_element_runs_pass :
    ∃ w code, ∃ h : code.length ≤ 4096,
      Steps.Reachable (step nativePlatform .bpfilter) sampleWorld w ∧
      interpretedPath w.element = .interpreted passProgram ∧
      nativePath w.element w.space = .native jitWindow code ∧
      ∃ s c', Goes passProgram (fun _ _ _ => none) 1
          (startState .basic (windowGround code h) (windowCpu code) (fun _ => none)) s ∧
        Mirrors s c' ∧
        Relation.ReflTransGen (fun s s' => nativeStep (fun _ => none) s = some s')
          ⟨windowCpu code, BitVec.ofNat 64 jitWindow⟩
          ⟨c', BitVec.ofNat 64 jitWindow + BitVec.ofNat 64 (instAt passProgram .basic s.pc)⟩ := by
  rcases passProgram_reached with ⟨w, code, hreach, hinterpreted, hpath, hshort⟩
  rcases native_element_runs nativePlatform .bpfilter bareHost rfl _ _ w hreach jitWindow code hpath
    with ⟨program, hprogram, hrun⟩
  rw [hinterpreted, ExecPath.interpreted.injEq] at hprogram
  subst hprogram
  have hsecond : IsStart passProgram.insts 1 := ⟨by decide +kernel, rfl⟩
  rcases hrun _ _ _ _ _ _ _ 1 (passProgram_call code hshort) ⟨_, rfl, fun _ => hsecond⟩ with
    ⟨s, c', hgoes, hmirrors, hsteps⟩
  exact ⟨w, code, hshort, hreach, hinterpreted, hpath, s, c', hgoes, hmirrors, hsteps⟩

end Sample

end UniBPF
