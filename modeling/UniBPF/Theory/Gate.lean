import UniBPF.Theory.Configure
import Mathlib.Data.UInt

/-!
# The Signature Gate

Whether the code an element holds is code whose signature was checked.

The question is about where code came from, so a run carries three notes
beside the world: the file the held program was loaded from, the file the
last accepted check looked at, and how often a program was installed. The
notes are taken from the place a call returned at and are never read back by
the element. `LoadsTo` ties the first of them to the machine: the program is
really what a load of those bytes gives, and compiled code is its
translation.

The gate is open in two places. The program is loaded before its signature
is looked at, so a rejected program is already installed, with whatever maps
its relocations made. And the check reads the file again: nothing says that
it reads what was loaded. `Trusted` rules out exactly these two, and
`signature_gate_iff` says that over every run nothing else goes wrong.

## Main definitions

* `Gated`: A world with notes on where its code came from.
* `gateStep`: An operation that keeps the notes.
* `CodeAbsent`, `LoadsTo`, `HeldAccepted`: What the gate promises of the code.
* `GateHolds`: The promise, at one operation.
* `Trusted`: The signature is accepted, for the bytes that were loaded.

## Theorems

* `held_accepted`: A trusted call that loads leaves accepted code.
* `gate_step_iff`: One operation.
* `signature_gate_iff`: The gate over whole runs.
-/

namespace UniBPF

/-- The call unloaded the old program. -/
def Result.unloads : Result → Bool
  | .loadFailed _ | .rejected | .compileFailed _ | .success => true
  | _ => false

/-- The call got its program loaded. -/
def Result.installs : Result → Bool
  | .rejected | .compileFailed _ | .success => true
  | _ => false

/-- The call got its signature accepted. -/
def Result.accepts : Result → Bool
  | .compileFailed _ | .success => true
  | _ => false

/-- A world with notes: the bytes the held program was loaded from, the bytes
    the last accepted check read, and the number of programs installed. -/
structure Gated where
  world : World
  loadedFrom : Option Bytes
  accepted : Option Bytes
  installs : Nat

/-- The notes of a new element. -/
def Gated.new (junk : Uninit) (as : AddressSpace) : Gated :=
  ⟨⟨Element.new junk, as⟩, none, none, 0⟩

/-- Take down what a call did, given the arguments it committed. -/
def Gated.record (g : Gated) (call : ConfigureCall) (args : ConfArgs) (r : Result) (w' : World) :
    Gated where
  world := w'
  loadedFrom :=
    if r.installs then some (fileOf call args g.world).bytes
    else if r.unloads then none
    else g.loadedFrom
  accepted :=
    if r.accepts then some (call.readAgain (commitArgs args g.world.element).bpfFile)
    else g.accepted
  installs := if r.installs then g.installs + 1 else g.installs

/-- An operation on an element, with the notes kept. -/
def gateStep (P : Platform) (cls : ElementClass) (g : Gated) : Event → Option Gated
  | .push p => (step P cls g.world (.push p)).map fun w' => { g with world := w' }
  | .configure call =>
    match configure P cls g.world call, P.parseArgs call.conf with
    | some (.returned r w'), some args => some (g.record call args r w')
    | some (.returned _ w'), none => some { g with world := w' }
    | _, _ => none

/-- The element holds no code, neither as instructions nor compiled. -/
def CodeAbsent (e : Element) : Prop :=
  ∀ vm, e.vm = some vm → vm.insts = none ∧ vm.jitted = none

/-- The machine's program is what a load of these bytes gives, and its
    compiled code, if any, is the translation of that program. -/
def LoadsTo (P : Platform) (bytes : Bytes) (vm : Vm) (as : AddressSpace) : Prop :=
  (∃ call buffer vm₀ ctx loaded, buffer.bytes = bytes ∧
      load P call buffer vm₀ ctx = some loaded ∧ loaded.error = none ∧
      vm.insts = loaded.vm.insts) ∧
    OwnsCode P.translate vm as

/-- The code the element holds is absent, or was loaded from the bytes that
    were accepted. -/
def HeldAccepted (P : Platform) (g : Gated) : Prop :=
  CodeAbsent g.world.element ∨ ∃ bytes vm, g.loadedFrom = some bytes ∧ g.accepted = some bytes ∧
    g.world.element.vm = some vm ∧ LoadsTo P bytes vm g.world.space

/-- The gate at one operation: when it is over, the held code is accepted
    code, and a call whose signature was rejected has neither installed a
    program nor touched the map context. -/
def GateHolds (P : Platform) (cls : ElementClass) (g : Gated) (e : Event) : Prop :=
  ∀ g', gateStep P cls g e = some g' → HeldAccepted P g' ∧
    ∀ call w', e = .configure call → configure P cls g.world call = some (.returned .rejected w') →
      g'.installs = g.installs ∧ w'.element.mapCtx = g.world.element.mapCtx

/-- Where a call gets its program loaded, the signature is accepted and the
    check read the bytes that were loaded. -/
def Trusted (P : Platform) (verify : Bytes → Bytes → Bool) (cls : ElementClass) (g : Gated) :
    Event → Prop
  | .push _ => True
  | .configure call => ∀ args loaded, Entered P g.world call args →
      loadedBy P cls g.world call args = some loaded → loaded.error = none →
      checkBpfVerificationSignature verify call (commitArgs args g.world.element) = true ∧
        call.readAgain (commitArgs args g.world.element).bpfFile
          = (fileOf call args g.world).bytes

section Gate

variable (P : Platform) (cls : ElementClass) (g : Gated)

theorem signatureOk_enabled (verify : Bytes → Bytes → Bool) (henabled : P.verify = some verify)
    (call : ConfigureCall) (e : Element) :
    signatureOk P call e = checkBpfVerificationSignature verify call e := by
  simp only [signatureOk, henabled]

/-- What a call that returned takes down. -/
theorem gateStep_returned (call : ConfigureCall) (args : ConfArgs) (r : Result) (w' : World)
    (hargs : P.parseArgs call.conf = some args) (hret : Returns P cls g.world call r w') :
    gateStep P cls g (.configure call) = some (g.record call args r w') := by
  simp only [gateStep, (configure_returned P cls g.world call r w').mpr hret, hargs]

/-- A call that ends before the lock leaves the held code and the notes
    alone. -/
theorem heldAccepted_early (call : ConfigureCall) (args : ConfArgs) (r : Result) (w' : World)
    (hinv : HeldAccepted P g) (hr : r.unloads = false) (hvm : w'.element.vm = g.world.element.vm)
    (hspace : w'.space = g.world.space) : HeldAccepted P (g.record call args r w') := by
  have hnotes : r.installs = false ∧ r.accepts = false := by
    cases r <;> first
      | exact ⟨rfl, rfl⟩
      | exact absurd hr (by simp only [Result.unloads, Bool.true_eq_false, not_false_eq_true])
  -- No note is taken, so whichever case held before holds again.
  rcases hinv with habsent | ⟨bytes, vm, hfrom, hacc, hheld, hloads⟩
  · left
    intro vm hsome
    exact habsent vm (hvm.symm.trans hsome)
  · right
    refine ⟨bytes, vm, ?_, ?_, hvm.trans hheld, ?_⟩
    · simp only [Gated.record, hnotes.1, hr, Bool.false_eq_true, if_false, hfrom]
    · simp only [Gated.record, hnotes.2, Bool.false_eq_true, if_false, hacc]
    · simp only [Gated.record, hspace]
      exact hloads

/-- A call that got its program loaded, and its signature accepted for the
    same bytes, leaves accepted code, compiled or not. -/
theorem held_accepted (call : ConfigureCall) (args : ConfArgs) (loaded : Loaded BpfMapCtx)
    (r : Result) (w' : World) (vm : Vm) (hload : loadedBy P cls g.world call args = some loaded)
    (hok : loaded.error = none)
    (hsame : call.readAgain (commitArgs args g.world.element).bpfFile
      = (fileOf call args g.world).bytes)
    (hr : r.accepts = true) (hvm : w'.element.vm = some vm)
    (hinsts : vm.insts = loaded.vm.insts) (howns : OwnsCode P.translate vm w'.space) :
    HeldAccepted P (g.record call args r w') := by
  have hinstalls : r.installs = true := by
    cases r <;> first
      | rfl
      | exact absurd hr Bool.false_ne_true
  refine .inr ⟨(fileOf call args g.world).bytes, vm, ?_, ?_, hvm, ?_, howns⟩
  · simp only [Gated.record, hinstalls, if_true]
  · simp only [Gated.record, hr, if_true, hsame]
  · exact ⟨call, fileOf call args g.world, _, _, loaded, rfl, hload, hok, hinsts⟩

/-- Compilation keeps the program. -/
theorem compiledBy_insts (call : ConfigureCall) (args : ConfArgs) (loaded : Loaded BpfMapCtx)
    (w : World) (hload : loadedBy P cls w call args = some loaded) (hok : loaded.error = none) :
    (compiledBy P cls w call loaded).vm.insts = loaded.vm.insts := by
  rcases loadedBy_vm P cls w call args loaded hload with ⟨hjit, -, hinsts, -⟩
  unfold compiledBy
  cases herror : (ubpfCompile P.translate call.pages loaded.vm (unloaded cls w).2).error with
  | some e => exact (ubpfCompile_failed _ _ _ _ e hjit herror).2.2.2.1
  | none =>
      rcases view_of_insts loaded.vm (hinsts hok) with ⟨program, hview⟩
      rcases ubpfCompile_ok _ _ _ _ program hjit hview herror with ⟨code, -, -, hvm, -⟩
      rw [hvm]

/-- The dump shows in neither the program nor the compiled code. -/
theorem dumpedVm_insts (call : ConfigureCall) (e : Element) (vm : Vm) :
    (dumpedVm call e vm).insts = vm.insts := by
  unfold dumpedVm
  split <;> rfl

theorem dumpedVm_owns (call : ConfigureCall) (e : Element) (vm : Vm) (as : AddressSpace)
    (h : OwnsCode P.translate vm as) : OwnsCode P.translate (dumpedVm call e vm) as := by
  unfold dumpedVm
  split
  · exact ownsCode_dump P.translate vm as call.dumped h
  · exact h

/-- The worlds a noted call can lead to. -/
theorem gateStep_cases (call : ConfigureCall) (g' : Gated)
    (h : gateStep P cls g (.configure call) = some g') :
    ∃ r w', Returns P cls g.world call r w' ∧
      ((P.parseArgs call.conf = none ∧ g' = { g with world := w' }) ∨
        ∃ args, P.parseArgs call.conf = some args ∧ g' = g.record call args r w') := by
  simp only [gateStep] at h
  split at h
  · rename_i r w' args hcall hargs
    exact ⟨r, w', (configure_returned P cls g.world call r w').mp hcall,
      .inr ⟨args, hargs, (Option.some.inj h).symm⟩⟩
  · rename_i r w' hcall hargs
    exact ⟨r, w', (configure_returned P cls g.world call r w').mp hcall,
      .inl ⟨hargs, (Option.some.inj h).symm⟩⟩
  · exact absurd h (by simp only [reduceCtorEq, not_false_eq_true])

/-- What a call leaves that loaded its program and got its signature
    accepted: code that is held, with both notes taken. -/
theorem accepted_returns (call : ConfigureCall) (args : ConfArgs) (loaded : Loaded BpfMapCtx)
    (hin : Entered P g.world call args) (hload : loadedBy P cls g.world call args = some loaded)
    (herror : loaded.error = none)
    (hsig : signatureOk P call (commitArgs args g.world.element) = true) :
    ∃ r w', Returns P cls g.world call r w' ∧ r.accepts = true ∧ ¬ CodeAbsent w'.element := by
  have hheld : ∀ vm : Vm, vm.insts = loaded.vm.insts → vm.insts ≠ none := by
    intro vm hvm hnone
    have hsome := (loadedBy_vm P cls g.world call args loaded hload).2.2.1 herror
    rw [← hvm, hnone] at hsome
    exact Bool.false_ne_true hsome
  have hinsts := compiledBy_insts P cls call args loaded g.world hload herror
  cases hjit : (commitArgs args g.world.element).jit with
  | false =>
      refine ⟨_, _, .interpreted args loaded hin hload herror hsig hjit, rfl, ?_⟩
      intro habsent
      exact hheld _ (dumpedVm_insts call _ _) (habsent _ rfl).1
  | true =>
      cases hcompile : (compiledBy P cls g.world call loaded).error with
      | some e =>
          refine ⟨_, _, .compileFailed args loaded e hin hload herror hsig hjit hcompile, rfl, ?_⟩
          intro habsent
          exact hheld _ hinsts (habsent _ rfl).1
      | none =>
          refine ⟨_, _, .compiled args loaded hin hload herror hsig hjit hcompile, rfl, ?_⟩
          intro habsent
          exact hheld _ ((dumpedVm_insts call _ _).trans hinsts) (habsent _ rfl).1

section Enabled

variable (verify : Bytes → Bytes → Bool) (henabled : P.verify = some verify)

include henabled

/-- No trusted call is rejected. -/
theorem not_rejected_of_trusted (call : ConfigureCall)
    (htrust : Trusted P verify cls g (.configure call)) (w' : World) :
    ¬ Returns P cls g.world call .rejected w' := by
  intro hrej
  cases hrej with
  | rejected args loaded hin hload herror hsig =>
      have hacc := (htrust args loaded hin hload herror).1
      rw [← signatureOk_enabled P verify henabled, hsig] at hacc
      exact Bool.false_ne_true hacc

/-- What a trusted call leaves is accepted code, wherever it returns. -/
theorem heldAccepted_of_trusted (call : ConfigureCall) (args : ConfArgs) (r : Result) (w' : World)
    (hinv : HeldAccepted P g) (htrust : Trusted P verify cls g (.configure call))
    (hargs : P.parseArgs call.conf = some args) (hret : Returns P cls g.world call r w') :
    HeldAccepted P (g.record call args r w') := by
  have hsame : ∀ args', P.parseArgs call.conf = some args' → args' = args := by
    intro args' hargs'
    exact Option.some.inj (hargs'.symm.trans hargs)
  -- Before the lock nothing is touched; after it the old code is gone, so it is enough
  -- to look at what has come in its place.
  cases hret with
  | noArguments hconf => exact heldAccepted_early P g call args _ _ hinv rfl rfl rfl
  | badArguments hconf hparse => exact heldAccepted_early P g call args _ _ hinv rfl rfl rfl
  | unreadable args' hconf hparse hfile =>
      exact heldAccepted_early P g call args _ _ hinv rfl rfl rfl
  | noVm args' hconf hparse hfile hvm hcreated =>
      exact heldAccepted_early P g call args _ _ hinv rfl rfl rfl
  | loadFailed args' loaded e hin hload herror =>
      -- The old program is gone and no new one has come.
      rcases loadedBy_vm P cls g.world call args' loaded hload with ⟨hjit, -, -, hempty⟩
      left
      intro vm hvm
      simp only [Gated.record, stopped, Option.some.injEq] at hvm
      rw [← hvm]
      exact ⟨hempty e herror, hjit⟩
  | rejected args' loaded hin hload herror hsig =>
      exact absurd (.rejected args' loaded hin hload herror hsig)
        (not_rejected_of_trusted P cls g verify henabled call htrust _)
  | compileFailed args' loaded e hin hload herror hsig hjit hcompile =>
      have hargs' := hsame args' hin.parsed
      subst hargs'
      have hfresh := (loadedBy_vm P cls g.world call args' loaded hload).1
      exact held_accepted P cls g call args' loaded _ _ _ hload herror
        (htrust args' loaded hin hload herror).2 rfl rfl
        (compiledBy_insts P cls call args' loaded g.world hload herror)
        (ownsCode_compile P.translate call.pages loaded.vm _ hfresh)
  | interpreted args' loaded hin hload herror hsig hjit =>
      have hargs' := hsame args' hin.parsed
      subst hargs'
      have hfresh := (loadedBy_vm P cls g.world call args' loaded hload).1
      exact held_accepted P cls g call args' loaded _ _ _ hload herror
        (htrust args' loaded hin hload herror).2 rfl rfl (dumpedVm_insts call _ _)
        (dumpedVm_owns P call _ _ _ (ownsCode_of_none _ _ _ hfresh))
  | compiled args' loaded hin hload herror hsig hjit hcompile =>
      have hargs' := hsame args' hin.parsed
      subst hargs'
      have hfresh := (loadedBy_vm P cls g.world call args' loaded hload).1
      have howns := ownsCode_compile P.translate call.pages loaded.vm (unloaded cls g.world).2
        hfresh
      have hinsts := compiledBy_insts P cls call args' loaded g.world hload herror
      exact held_accepted P cls g call args' loaded _ _ _ hload herror
        (htrust args' loaded hin hload herror).2 rfl rfl
        ((dumpedVm_insts call _ _).trans hinsts) (dumpedVm_owns P call _ _ _ howns)

/-- A trusted call keeps the gate. -/
theorem gateHolds_of_trusted (call : ConfigureCall) (hinv : HeldAccepted P g)
    (htrust : Trusted P verify cls g (.configure call)) :
    GateHolds P cls g (.configure call) := by
  intro g' hstep
  refine ⟨?_, ?_⟩
  · rcases gateStep_cases P cls g call g' hstep with ⟨r, w', hret, ⟨hnone, hg⟩ | ⟨args, hargs, hg⟩⟩
    · rw [hg, returns_unparsed P cls g.world call r w' hnone hret]
      exact hinv
    · rw [hg]
      exact heldAccepted_of_trusted P cls g verify henabled call args r w' hinv htrust hargs hret
  · intro call' w'' hsame hrej
    rw [Event.configure.injEq] at hsame
    rw [← hsame] at hrej
    exact absurd ((configure_returned P cls g.world call _ w'').mp hrej)
      (not_rejected_of_trusted P cls g verify henabled call htrust w'')

/-- A call that keeps the gate is trusted. -/
theorem trusted_of_gateHolds (call : ConfigureCall) (h : GateHolds P cls g (.configure call)) :
    Trusted P verify cls g (.configure call) := by
  intro args loaded hin hload herror
  have hsig : signatureOk P call (commitArgs args g.world.element) = true := by
    cases hsig : signatureOk P call (commitArgs args g.world.element) with
    | true => rfl
    | false =>
        -- A rejected program has been installed all the same.
        have hrej := Returns.rejected args loaded hin hload herror hsig
        have hgate := h _ (gateStep_returned P cls g call args _ _ hin.parsed hrej)
        have hcount := (hgate.2 call _ rfl
          ((configure_returned P cls g.world call _ _).mpr hrej)).1
        simp only [Gated.record, Result.installs, if_true, Nat.add_eq_left, one_ne_zero] at hcount
  refine ⟨(signatureOk_enabled P verify henabled call _).symm.trans hsig, ?_⟩
  -- The accepted program is held, so the gate compares the two notes.
  rcases accepted_returns P cls g call args loaded hin hload herror hsig with
    ⟨r, w', hret, hacc, hheld⟩
  have hinstalls : r.installs = true := by
    cases r <;> first
      | rfl
      | exact absurd hacc Bool.false_ne_true
  have hgate := (h _ (gateStep_returned P cls g call args r w' hin.parsed hret)).1
  rcases hgate with habsent | ⟨bytes, vm, hfrom, haccepted, -, -⟩
  · exact absurd habsent hheld
  · simp only [Gated.record, hinstalls, if_true, Option.some.injEq] at hfrom
    simp only [Gated.record, hacc, if_true, Option.some.injEq] at haccepted
    rw [haccepted, hfrom]

/-- One operation, on an element whose code is accepted code. -/
theorem gate_step_iff (e : Event) (hinv : HeldAccepted P g) :
    GateHolds P cls g e ↔ Trusted P verify cls g e := by
  cases e with
  | configure call =>
      exact ⟨trusted_of_gateHolds P cls g verify henabled call,
        gateHolds_of_trusted P cls g verify henabled call hinv⟩
  | push p =>
      refine ⟨fun _ => trivial, ?_⟩
      intro _ g' hstep
      simp only [gateStep, Option.map_eq_some_iff] at hstep
      rcases hstep with ⟨w', hpush, hg⟩
      rcases step_push P cls g.world p w' hpush with ⟨ctx, ops, -, hw⟩
      rw [← hg, hw]
      exact ⟨hinv, fun call w'' hno _ => by simp only [reduceCtorEq] at hno⟩

/-- With verification enabled, over every run of a new element: the gate holds
    at each operation exactly when each call that gets its program loaded has
    its signature accepted, on the bytes it loaded. -/
theorem signature_gate_iff (junk : Uninit) (as : AddressSpace) (es : List Event) :
    Steps.Along (gateStep P cls) (GateHolds P cls) (Gated.new junk as) es ↔
      Steps.Along (gateStep P cls) (Trusted P verify cls) (Gated.new junk as) es := by
  have hnew : HeldAccepted P (Gated.new junk as) := by
    left
    intro vm hvm
    exact absurd hvm (by simp only [Gated.new, Element.new, reduceCtorEq, not_false_eq_true])
  -- The invariant is what the gate itself says of the step before.
  refine Steps.along_iff (gateStep P cls) (GateHolds P cls) (Trusted P verify cls)
    (HeldAccepted P) (fun g e hinv => gate_step_iff P cls g verify henabled e hinv) ?_ es _ hnew
  intro g e g' _ hgate hstep
  exact (hgate g' hstep).1

end Enabled

end Gate

/-- A signature check: the signature is the sum of the file's bytes. -/
def sampleVerify (contents signature : Bytes) : Bool :=
  signature == [contents.sum]

/-- A call with the signature of its file: the gate holds, and the element has
    the program of that file. -/
theorem signature_gate_sample :
    Steps.Along (gateStep (samplePlatform (some sampleVerify)) .bpfilter)
        (GateHolds (samplePlatform (some sampleVerify)) .bpfilter)
        (Gated.new ⟨0, false, false, none⟩ sampleWorld.space)
        [.configure (sampleCall ["FILE drop", "SIGNATURE drop.sig"])] ∧
      Outcome.test (fun r w' => r == .success && w'.element.vm.any (·.insts.isSome))
        (configure (samplePlatform (some sampleVerify)) .bpfilter sampleWorld
          (sampleCall ["FILE drop", "SIGNATURE drop.sig"])) = true := by
  have hargs : (samplePlatform (some sampleVerify)).parseArgs
      (sampleCall ["FILE drop", "SIGNATURE drop.sig"]).conf
        = some ⟨none, none, none, some (helperName "drop"), some (helperName "drop.sig")⟩ := by
    decide +kernel
  refine ⟨(signature_gate_iff _ .bpfilter sampleVerify rfl _ _ _).mpr ⟨?_, fun _ _ => trivial⟩,
    by decide +kernel⟩
  intro args loaded hin _ _
  have hsame := hargs.symm.trans hin.parsed
  rw [Option.some.injEq] at hsame
  rw [← hsame]
  exact ⟨by decide +kernel, by decide +kernel⟩

/-- A call without a signature is rejected, and the element holds its
    program. -/
theorem rejected_program_installed :
    ∃ w' vm, configure (samplePlatform (some sampleVerify)) .bpfilter sampleWorld
        (sampleCall ["FILE drop"]) = some (.returned .rejected w') ∧
      w'.element.vm = some vm ∧ vm.insts.isSome = true ∧
      ¬ GateHolds (samplePlatform (some sampleVerify)) .bpfilter
        (Gated.new ⟨0, false, false, none⟩ sampleWorld.space)
        (.configure (sampleCall ["FILE drop"])) := by
  have htest : Outcome.test (fun r w' => r == .rejected && w'.element.vm.any (·.insts.isSome))
      (configure (samplePlatform (some sampleVerify)) .bpfilter sampleWorld
        (sampleCall ["FILE drop"])) = true := by
    decide +kernel
  rcases Outcome.of_test _ _ htest with ⟨r, w', hcall, hcheck⟩
  rw [Bool.and_eq_true, beq_iff_eq] at hcheck
  rcases hcheck with ⟨hr, hheld⟩
  rw [hr] at hcall
  cases hvm : w'.element.vm with
  | none =>
      rw [hvm] at hheld
      exact absurd hheld Bool.false_ne_true
  | some vm =>
      rw [hvm] at hheld
      refine ⟨w', vm, hcall, hvm, hheld, ?_⟩
      intro hgate
      have hargs : (samplePlatform (some sampleVerify)).parseArgs (sampleCall ["FILE drop"]).conf
          = some ⟨none, none, none, some (helperName "drop"), none⟩ := by
        decide +kernel
      have hret := (configure_returned _ _ sampleWorld _ _ _).mp hcall
      have hcount := (hgate _ (gateStep_returned _ _ _ _ _ _ _ hargs hret)).2 _ w' rfl hcall
      simp only [Gated.record, Result.installs, if_true, Nat.add_eq_left, one_ne_zero,
        false_and] at hcount

end UniBPF
