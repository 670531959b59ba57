import UniBPF.Core.Element
import UniBPF.Lib.Steps
import UniBPF.Theory.Link

/-!
# What a Call of Configure Can Do

Every statement about an element is a statement about the calls made on it,
and `configure` has eight ways to return. `Returns` lists them, each with the
conditions that lead there and the world it leaves, and `configure_returned`
says the list is exact. Later proofs take a call apart by the cases of
`Returns` and never unfold `configure` again.

The cases after the lock all start from the same place, so that place has a
name. A call has `Entered` when it got past the file read with the lock free;
what it then works on does not depend on whether the machine existed before,
since a machine made for this call has nothing to unload
(`unload_machineOf`).

Unloading comes first, so the load finds an empty machine and the compilation
one without compiled code (`loadedBy_vm`).

A push is simpler. Whatever it does, it leaves everything but the map
context where it was (`step_push`).

## Main definitions

* `machineOf`, `contextOf`: The machine and the map context a call works on.
* `fileOf`, `unloaded`, `loadedBy`: The file, the machine after unloading and
  the load.
* `Entered`: The call takes the lock.
* `Returns`: The ways a call returns.

## Theorems

* `unload_machineOf`: A machine made for the call has nothing to unload.
* `configure_entered`: A call that takes the lock is its load and what
  follows.
* `configure_returned`: The list of ways to return is exact.
* `configure_waiting`: A call waits only for a lock that is held.
* `step_configure`, `step_push`: What an operation does to the world.
* `loadedBy_vm`: The machine after the load of a call.
-/

namespace UniBPF

/-- The machine a call works on. -/
def machineOf (cls : ElementClass) (e : Element) : Vm :=
  e.vm.getD (initUbpfVm cls)

/-- The map context a call works on. -/
def contextOf (e : Element) : BpfMapCtx :=
  if e.vm.isSome then e.mapCtx else .empty

/-- The file a call reads. -/
def fileOf (call : ConfigureCall) (args : ConfArgs) (w : World) : FileBuffer :=
  call.readFile (commitArgs args w.element).bpfFile

/-- The machine and the page table once the old program is gone. -/
def unloaded (cls : ElementClass) (w : World) : Vm × AddressSpace :=
  ubpfUnloadCode (machineOf cls w.element) w.space

/-- The load a call makes. -/
def loadedBy (P : Platform) (cls : ElementClass) (w : World) (call : ConfigureCall)
    (args : ConfArgs) : Option (Loaded BpfMapCtx) :=
  load P call (fileOf call args w) (unloaded cls w).1 (contextOf w.element)

/-- The compilation a call makes of what it loaded. -/
def compiledBy (P : Platform) (cls : ElementClass) (w : World) (call : ConfigureCall)
    (loaded : Loaded BpfMapCtx) : Compiled :=
  ubpfCompile P.translate call.pages loaded.vm (unloaded cls w).2

/-- The machine after the JIT dump, where one is asked for. -/
def dumpedVm (call : ConfigureCall) (e : Element) (vm : Vm) : Vm :=
  if e.dumpJit then handleJitDump vm call.dumped else vm

/-- The call has its arguments and its file, and takes the lock. -/
structure Entered (P : Platform) (w : World) (call : ConfigureCall) (args : ConfArgs) : Prop where
  conf : call.conf ≠ []
  parsed : P.parseArgs call.conf = some args
  readable : (fileOf call args w).bytes ≠ []
  machine : w.element.vm.isSome = true ∨ call.created = true
  lockFree : w.element.lock = .free

/-- The element as a call that returns early after the load leaves it: the
    lock is still held. -/
def stopped (args : ConfArgs) (e : Element) (vm : Vm) (ctx : BpfMapCtx) : Element :=
  { commitArgs args e with lock := .writing, vm := some vm, mapCtx := ctx }

/-- The element as a successful call leaves it. -/
def configured (args : ConfArgs) (e : Element) (vm : Vm) (ctx : BpfMapCtx) : Element :=
  { commitArgs args e with lock := .free, vm := some vm, mapCtx := ctx }

/-- The ways a call returns. -/
inductive Returns (P : Platform) (cls : ElementClass) (w : World) (call : ConfigureCall) :
    Result → World → Prop where
  | noArguments (hconf : call.conf = []) : Returns P cls w call .noArguments w
  | badArguments (hconf : call.conf ≠ []) (hparse : P.parseArgs call.conf = none) :
      Returns P cls w call .badArguments w
  | unreadable (args : ConfArgs) (hconf : call.conf ≠ [])
      (hparse : P.parseArgs call.conf = some args) (hfile : (fileOf call args w).bytes = []) :
      Returns P cls w call .unreadable ⟨commitArgs args w.element, w.space⟩
  | noVm (args : ConfArgs) (hconf : call.conf ≠ []) (hparse : P.parseArgs call.conf = some args)
      (hfile : (fileOf call args w).bytes ≠ []) (hvm : w.element.vm = none)
      (hcreated : call.created = false) :
      Returns P cls w call .noVm ⟨commitArgs args w.element, w.space⟩
  | loadFailed (args : ConfArgs) (loaded : Loaded BpfMapCtx) (e : LoadError)
      (hin : Entered P w call args) (hload : loadedBy P cls w call args = some loaded)
      (herror : loaded.error = some e) :
      Returns P cls w call (.loadFailed e)
        ⟨stopped args w.element loaded.vm loaded.ctx, (unloaded cls w).2⟩
  | rejected (args : ConfArgs) (loaded : Loaded BpfMapCtx) (hin : Entered P w call args)
      (hload : loadedBy P cls w call args = some loaded) (herror : loaded.error = none)
      (hsig : signatureOk P call (commitArgs args w.element) = false) :
      Returns P cls w call .rejected
        ⟨stopped args w.element loaded.vm loaded.ctx, (unloaded cls w).2⟩
  | compileFailed (args : ConfArgs) (loaded : Loaded BpfMapCtx) (e : CompileError)
      (hin : Entered P w call args) (hload : loadedBy P cls w call args = some loaded)
      (herror : loaded.error = none) (hsig : signatureOk P call (commitArgs args w.element) = true)
      (hjit : (commitArgs args w.element).jit = true)
      (hcompile : (compiledBy P cls w call loaded).error = some e) :
      Returns P cls w call (.compileFailed e)
        ⟨{ stopped args w.element (compiledBy P cls w call loaded).vm loaded.ctx with
            jitFn := (compiledBy P cls w call loaded).vm.jitted },
          (compiledBy P cls w call loaded).space⟩
  | interpreted (args : ConfArgs) (loaded : Loaded BpfMapCtx) (hin : Entered P w call args)
      (hload : loadedBy P cls w call args = some loaded) (herror : loaded.error = none)
      (hsig : signatureOk P call (commitArgs args w.element) = true)
      (hjit : (commitArgs args w.element).jit = false) :
      Returns P cls w call .success
        ⟨configured args w.element (dumpedVm call (commitArgs args w.element) loaded.vm)
          loaded.ctx, (unloaded cls w).2⟩
  | compiled (args : ConfArgs) (loaded : Loaded BpfMapCtx) (hin : Entered P w call args)
      (hload : loadedBy P cls w call args = some loaded) (herror : loaded.error = none)
      (hsig : signatureOk P call (commitArgs args w.element) = true)
      (hjit : (commitArgs args w.element).jit = true)
      (hcompile : (compiledBy P cls w call loaded).error = none) :
      Returns P cls w call .success
        ⟨{ configured args w.element (dumpedVm call (commitArgs args w.element)
              (compiledBy P cls w call loaded).vm) loaded.ctx with
            jitFn := (compiledBy P cls w call loaded).vm.jitted },
          (compiledBy P cls w call loaded).space⟩

/-- A new machine holds neither a program nor compiled code. -/
theorem initUbpfVm_empty (cls : ElementClass) :
    (initUbpfVm cls).insts = none ∧ (initUbpfVm cls).jitted = none := by
  cases cls <;> exact ⟨rfl, rfl⟩

theorem unload_machineOf (cls : ElementClass) (e : Element) (as : AddressSpace) :
    unload e.vm.isSome (machineOf cls e) as = ubpfUnloadCode (machineOf cls e) as := by
  cases hvm : e.vm with
  | some vm => rfl
  | none =>
      -- A machine just made is not unloaded, and unloading it would do nothing.
      have hnew := initUbpfVm_empty cls
      simp only [machineOf, hvm, Option.getD_none, Option.isSome_none, unload, Bool.false_eq_true,
        if_false, ubpfUnloadCode, dropJitted, hnew.1, hnew.2]

theorem ensureVm_eq (cls : ElementClass) (args : ConfArgs) (e : Element) (created : Bool)
    (h : e.vm.isSome = true ∨ created = true) :
    ensureVm cls created (commitArgs args e)
      = some (machineOf cls e,
          { commitArgs args e with vm := some (machineOf cls e), mapCtx := contextOf e }) := by
  cases hvm : e.vm with
  | some vm => simp only [ensureVm, commitArgs, hvm, machineOf, Option.getD_some, contextOf,
      Option.isSome_some, if_true]
  | none =>
      rw [hvm, Option.isSome_none] at h
      have hcreated : created = true := by
        rcases h with h | h
        · exact absurd h (by simp only [Bool.false_eq_true, not_false_eq_true])
        · exact h
      simp only [ensureVm, commitArgs, hvm, hcreated, if_true, machineOf, Option.getD_none,
        contextOf, Option.isSome_none, Bool.false_eq_true, if_false]

variable (P : Platform) (cls : ElementClass) (w : World) (call : ConfigureCall)

/-- The end of a call whose signature is turned away. -/
theorem finish_rejected (vm : Vm) (w : World) (hsig : signatureOk P call w.element = false) :
    finish P call vm w = (.rejected, ⟨{ w.element with vm := some vm }, w.space⟩) := by
  unfold finish
  rw [hsig, Bool.not_false, if_pos rfl]

theorem dump_eq (e : Element) (vm : Vm) (hvm : e.vm = some vm) :
    dump call e = { e with vm := some (dumpedVm call e vm) } := by
  unfold dump dumpedVm
  by_cases hdump : e.dumpJit = true
  · rw [if_pos hdump, if_pos hdump, hvm, Option.map_some]
  · rw [if_neg hdump, if_neg hdump, ← hvm]

/-- The dump shows in nothing that `exec` looks at. -/
theorem dumpedVm_view (e : Element) (vm : Vm) :
    (dumpedVm call e vm).view = vm.view ∧ (dumpedVm call e vm).jitted = vm.jitted ∧
      (dumpedVm call e vm).jittedSize = vm.jittedSize ∧
      (dumpedVm call e vm).jitterBufferSize = vm.jitterBufferSize := by
  unfold dumpedVm
  split <;> exact ⟨rfl, rfl, rfl, rfl⟩

/-- The end of a call that leaves the program to the interpreter. -/
theorem finish_interpreted (vm : Vm) (w : World) (hsig : signatureOk P call w.element = true)
    (hjit : w.element.jit = false) :
    finish P call vm w = (.success,
      ⟨{ w.element with
          vm := some (dumpedVm call w.element vm), lock := w.element.lock.wunlock }, w.space⟩) := by
  have hoff : ¬ w.element.jit = true := by
    rw [hjit]
    exact Bool.false_ne_true
  unfold finish compile
  rw [hsig, Bool.not_true, if_neg Bool.false_ne_true, if_neg hoff]
  simp only [dump_eq call { w.element with vm := some vm } vm rfl]
  rfl

/-- The end of a call that compiles. -/
theorem finish_jit (vm : Vm) (w : World) (hsig : signatureOk P call w.element = true)
    (hjit : w.element.jit = true) :
    finish P call vm w = match (ubpfCompile P.translate call.pages vm w.space).error with
      | some e => (.compileFailed e,
          ⟨{ w.element with
              vm := some (ubpfCompile P.translate call.pages vm w.space).vm
              jitFn := (ubpfCompile P.translate call.pages vm w.space).vm.jitted },
            (ubpfCompile P.translate call.pages vm w.space).space⟩)
      | none => (.success,
          ⟨{ w.element with
              vm := some (dumpedVm call w.element
                (ubpfCompile P.translate call.pages vm w.space).vm)
              jitFn := (ubpfCompile P.translate call.pages vm w.space).vm.jitted
              lock := w.element.lock.wunlock },
            (ubpfCompile P.translate call.pages vm w.space).space⟩) := by
  unfold finish compile
  rw [hsig, Bool.not_true, if_neg Bool.false_ne_true, if_pos hjit]
  -- Both sides only look at the parts of the compilation.
  generalize ubpfCompile P.translate call.pages vm w.space = c
  rcases c with ⟨error, vm', as⟩
  cases error with
  | some e => rfl
  | none =>
      simp only [dump_eq call { w.element with vm := some vm', jitFn := vm'.jitted } vm' rfl]
      rfl

theorem compile_lock (vm : Vm) (w w' : World) (error : Option CompileError)
    (h : compile P call vm w = (error, w')) : w'.element.lock = w.element.lock := by
  unfold compile at h
  split at h <;> (simp only [Prod.mk.injEq] at h; rw [← h.2])

/-- The end of a successful call: the signature was accepted, the compilation
    succeeded, and what is left are the dump and the unlock. -/
theorem finish_success (vm : Vm) (w w' : World) (h : finish P call vm w = (.success, w')) :
    signatureOk P call w.element = true ∧ ∃ w'', compile P call vm w = (none, w'') ∧
      w' = ⟨{ dump call w''.element with lock := w''.element.lock.wunlock }, w''.space⟩ := by
  cases hsig : signatureOk P call w.element with
  | false =>
      rw [finish_rejected P call vm w hsig, Prod.mk.injEq] at h
      exact absurd h.1 (by simp only [reduceCtorEq, not_false_eq_true])
  | true =>
      unfold finish at h
      rw [hsig, Bool.not_true, if_neg Bool.false_ne_true] at h
      cases hcompile : compile P call vm w with
      | mk error w'' =>
          rw [hcompile] at h
          cases error with
          | some e => simp only [Prod.mk.injEq, reduceCtorEq, false_and] at h
          | none =>
              simp only [Prod.mk.injEq, true_and] at h
              exact ⟨rfl, w'', rfl, h.symm⟩

/-- A call that takes the lock is its load and what follows. -/
theorem configure_entered (args : ConfArgs) (hin : Entered P w call args) :
    configure P cls w call = match loadedBy P cls w call args with
      | none => none
      | some loaded => match loaded.error with
        | some e => some (.returned (.loadFailed e)
            ⟨stopped args w.element loaded.vm loaded.ctx, (unloaded cls w).2⟩)
        | none =>
          let r := finish P call loaded.vm
            ⟨{ commitArgs args w.element with
                lock := .writing, vm := some (machineOf cls w.element), mapCtx := loaded.ctx },
              (unloaded cls w).2⟩
          some (.returned r.1 r.2) := by
  -- None of the early returns is taken.
  have hconf : call.conf.isEmpty = false := List.isEmpty_eq_false_iff.mpr hin.conf
  have hfile : (call.readFile (commitArgs args w.element).bpfFile).bytes.isEmpty = false :=
    List.isEmpty_eq_false_iff.mpr hin.readable
  have hvm := ensureVm_eq cls args w.element call.created hin.machine
  have hlock : (commitArgs args w.element).lock.wlock = some .writing := by
    simp only [commitArgs, hin.lockFree, RwLock.wlock]
  have hold : (commitArgs args w.element).vm.isSome = w.element.vm.isSome := rfl
  simp only [configure, hconf, Bool.false_eq_true, if_false, hin.parsed, configureCommitted, hfile,
    hvm, hlock, hold, configureLocked, unload_machineOf]
  rw [loadedBy, fileOf, unloaded]
  cases hload : load P call (call.readFile (commitArgs args w.element).bpfFile)
      (ubpfUnloadCode (machineOf cls w.element) w.space).1 (contextOf w.element) with
  | none => rfl
  | some loaded =>
      cases herror : loaded.error with
      | none => simp only [herror, Option.map_some]
      | some e => simp only [herror, Option.map_some, stopped]

/-- The world in which a call that took the lock looks at the signature. -/
def inSession (cls : ElementClass) (w : World) (args : ConfArgs) (loaded : Loaded BpfMapCtx) :
    World :=
  ⟨{ commitArgs args w.element with
      lock := .writing, vm := some (machineOf cls w.element), mapCtx := loaded.ctx },
    (unloaded cls w).2⟩

/-- The ways to return, for a call that takes the lock. -/
theorem returns_of_entered (args : ConfArgs) (hin : Entered P w call args) (r : Result) (w' : World)
    (h : configure P cls w call = some (.returned r w')) : Returns P cls w call r w' := by
  rw [configure_entered P cls w call args hin] at h
  cases hload : loadedBy P cls w call args with
  | none =>
      rw [hload] at h
      exact absurd h (by simp only [reduceCtorEq, not_false_eq_true])
  | some loaded =>
      rw [hload] at h
      cases herror : loaded.error with
      | some e =>
          simp only [herror, Option.some.injEq, Outcome.returned.injEq] at h
          rw [← h.1, ← h.2]
          exact .loadFailed args loaded e hin hload herror
      | none =>
          simp only [herror, Option.some.injEq, Outcome.returned.injEq] at h
          rw [← h.1, ← h.2]
          -- From here on the call is `finish` in the session's world.
          change Returns P cls w call (finish P call loaded.vm (inSession cls w args loaded)).1
            (finish P call loaded.vm (inSession cls w args loaded)).2
          cases hsig : signatureOk P call (commitArgs args w.element) with
          | false =>
              rw [finish_rejected P call loaded.vm (inSession cls w args loaded) hsig]
              exact .rejected args loaded hin hload herror hsig
          | true =>
              cases hjit : (commitArgs args w.element).jit with
              | false =>
                  rw [finish_interpreted P call loaded.vm (inSession cls w args loaded) hsig hjit]
                  exact .interpreted args loaded hin hload herror hsig hjit
              | true =>
                  rw [finish_jit P call loaded.vm (inSession cls w args loaded) hsig hjit]
                  cases hcompile : (compiledBy P cls w call loaded).error with
                  | some e =>
                      have hdone := Returns.compileFailed args loaded e hin hload herror hsig hjit
                        hcompile
                      unfold compiledBy at hcompile hdone
                      simp only [inSession, hcompile]
                      exact hdone
                  | none =>
                      have hdone := Returns.compiled args loaded hin hload herror hsig hjit hcompile
                      unfold compiledBy at hcompile hdone
                      simp only [inSession, hcompile]
                      exact hdone

/-- The list of ways to return is complete. -/
theorem returns_of_configure (r : Result) (w' : World)
    (h : configure P cls w call = some (.returned r w')) : Returns P cls w call r w' := by
  by_cases hconf : call.conf = []
  · simp only [configure, hconf, List.isEmpty_nil, if_true, Option.some.injEq,
      Outcome.returned.injEq] at h
    rw [← h.1, ← h.2]
    exact .noArguments hconf
  have hempty : call.conf.isEmpty = false := List.isEmpty_eq_false_iff.mpr hconf
  cases hparse : P.parseArgs call.conf with
  | none =>
      simp only [configure, hempty, Bool.false_eq_true, if_false, hparse, Option.some.injEq,
        Outcome.returned.injEq] at h
      rw [← h.1, ← h.2]
      exact .badArguments hconf hparse
  | some args =>
      by_cases hfile : (fileOf call args w).bytes = []
      · rw [fileOf] at hfile
        simp only [configure, hempty, Bool.false_eq_true, if_false, hparse, configureCommitted,
          hfile, List.isEmpty_nil, if_true, Option.some.injEq, Outcome.returned.injEq] at h
        rw [← h.1, ← h.2]
        exact .unreadable args hconf hparse hfile
      have hread : (call.readFile (commitArgs args w.element).bpfFile).bytes.isEmpty = false :=
        List.isEmpty_eq_false_iff.mpr hfile
      by_cases hmachine : w.element.vm.isSome = true ∨ call.created = true
      -- A call that finds the lock taken waits, so this one took it.
      · by_cases hlock : w.element.lock = .free
        · exact returns_of_entered P cls w call args ⟨hconf, hparse, hfile, hmachine, hlock⟩ r w' h
        · have hheld : (commitArgs args w.element).lock.wlock = none := by
            rw [Option.eq_none_iff_forall_ne_some]
            intro l hl
            exact hlock ((RwLock.wlock_eq_some _ l).mp hl).1
          simp only [configure, hempty, Bool.false_eq_true, if_false, hparse, configureCommitted,
            hread, ensureVm_eq cls args w.element call.created hmachine, hheld, Option.some.injEq,
            reduceCtorEq] at h
      -- There is no machine and none can be made.
      · simp only [not_or, Bool.not_eq_true, Option.isSome_eq_false_iff,
          Option.isNone_iff_eq_none] at hmachine
        have hnone : ensureVm cls call.created (commitArgs args w.element) = none := by
          simp only [ensureVm, commitArgs, hmachine.1, hmachine.2, Bool.false_eq_true, if_false]
        simp only [configure, hempty, Bool.false_eq_true, if_false, hparse, configureCommitted,
          hread, hnone, Option.some.injEq, Outcome.returned.injEq] at h
        rw [← h.1, ← h.2]
        exact .noVm args hconf hparse hfile hmachine.1 hmachine.2

/-- Every way to return on the list is one. -/
theorem configure_of_returns (r : Result) (w' : World) (h : Returns P cls w call r w') :
    configure P cls w call = some (.returned r w') := by
  cases h with
  | noArguments hconf => simp only [configure, hconf, List.isEmpty_nil, if_true]
  | badArguments hconf hparse =>
      simp only [configure, List.isEmpty_eq_false_iff.mpr hconf, Bool.false_eq_true, if_false,
        hparse]
  | unreadable args hconf hparse hfile =>
      rw [fileOf] at hfile
      simp only [configure, List.isEmpty_eq_false_iff.mpr hconf, Bool.false_eq_true, if_false,
        hparse, configureCommitted, hfile, List.isEmpty_nil, if_true]
  | noVm args hconf hparse hfile hvm hcreated =>
      rw [fileOf] at hfile
      simp only [configure, List.isEmpty_eq_false_iff.mpr hconf, Bool.false_eq_true, if_false,
        hparse, configureCommitted, List.isEmpty_eq_false_iff.mpr hfile, ensureVm, hcreated]
      simp only [commitArgs, hvm]
  | loadFailed args loaded e hin hload herror =>
      simp only [configure_entered P cls w call args hin, hload, herror]
  | rejected args loaded hin hload herror hsig =>
      simp only [configure_entered P cls w call args hin, hload, herror]
      rw [finish_rejected P call loaded.vm _ hsig]
      rfl
  | compileFailed args loaded e hin hload herror hsig hjit hcompile =>
      simp only [configure_entered P cls w call args hin, hload, herror]
      rw [finish_jit P call loaded.vm _ hsig hjit]
      unfold compiledBy at hcompile ⊢
      simp only [hcompile, stopped]
  | interpreted args loaded hin hload herror hsig hjit =>
      simp only [configure_entered P cls w call args hin, hload, herror]
      rw [finish_interpreted P call loaded.vm _ hsig hjit]
      rfl
  | compiled args loaded hin hload herror hsig hjit hcompile =>
      simp only [configure_entered P cls w call args hin, hload, herror]
      rw [finish_jit P call loaded.vm _ hsig hjit]
      unfold compiledBy at hcompile ⊢
      simp only [hcompile, configured, RwLock.wunlock]
      rfl

theorem configure_returned (r : Result) (w' : World) :
    configure P cls w call = some (.returned r w') ↔ Returns P cls w call r w' :=
  ⟨returns_of_configure P cls w call r w', configure_of_returns P cls w call r w'⟩

/-- What a successful call has loaded. -/
theorem returns_success (w' : World) (h : Returns P cls w call .success w') :
    ∃ args loaded, Entered P w call args ∧ loadedBy P cls w call args = some loaded ∧
      loaded.error = none := by
  cases h with
  | interpreted args loaded hin hload herror hsig hjit => exact ⟨args, loaded, hin, hload, herror⟩
  | compiled args loaded hin hload herror hsig hjit hcompile =>
      exact ⟨args, loaded, hin, hload, herror⟩

/-- A call whose arguments are not accepted leaves the world as it was. -/
theorem returns_unparsed (r : Result) (w' : World) (hparse : P.parseArgs call.conf = none)
    (h : Returns P cls w call r w') : w' = w := by
  have hnot : ∀ args, ¬ P.parseArgs call.conf = some args := by
    intro args hargs
    rw [hparse] at hargs
    exact absurd hargs (by simp only [reduceCtorEq, not_false_eq_true])
  cases h with
  | noArguments hconf => rfl
  | badArguments hconf hbad => rfl
  | unreadable args hconf hargs hfile => exact absurd hargs (hnot args)
  | noVm args hconf hargs hfile hvm hcreated => exact absurd hargs (hnot args)
  | loadFailed args loaded e hin hload herror => exact absurd hin.parsed (hnot args)
  | rejected args loaded hin hload herror hsig => exact absurd hin.parsed (hnot args)
  | compileFailed args loaded e hin hload herror hsig hjit hcompile =>
      exact absurd hin.parsed (hnot args)
  | interpreted args loaded hin hload herror hsig hjit => exact absurd hin.parsed (hnot args)
  | compiled args loaded hin hload herror hsig hjit hcompile =>
      exact absurd hin.parsed (hnot args)

/-- A call waits only for a lock that is held. -/
theorem configure_waiting (w' : World) (h : configure P cls w call = some (.waiting w')) :
    w.element.lock ≠ .free := by
  intro hfree
  unfold configure at h
  split at h
  · exact absurd h (by simp only [Option.some.injEq, reduceCtorEq, not_false_eq_true])
  · cases hparse : P.parseArgs call.conf with
    | none =>
        rw [hparse] at h
        exact absurd h (by simp only [Option.some.injEq, reduceCtorEq, not_false_eq_true])
    | some args =>
        simp only [hparse, configureCommitted] at h
        split at h
        · exact absurd h (by simp only [Option.some.injEq, reduceCtorEq, not_false_eq_true])
        · by_cases hmachine : w.element.vm.isSome = true ∨ call.created = true
          · rw [ensureVm_eq cls args w.element call.created hmachine] at h
            have hlock : (commitArgs args w.element).lock.wlock = some .writing := by
              simp only [commitArgs, hfree, RwLock.wlock]
            simp only [hlock, Option.map_eq_some_iff, reduceCtorEq, and_false, exists_false] at h
          · simp only [not_or, Bool.not_eq_true, Option.isSome_eq_false_iff,
              Option.isNone_iff_eq_none] at hmachine
            simp only [ensureVm, commitArgs, hmachine.1, hmachine.2, Bool.false_eq_true, if_false,
              Option.some.injEq, reduceCtorEq] at h

theorem step_configure (w' : World) :
    step P cls w (.configure call) = some w' ↔ ∃ r, Returns P cls w call r w' := by
  constructor
  · intro h
    simp only [step] at h
    cases hcall : configure P cls w call with
    | none =>
        rw [hcall] at h
        exact absurd h (by simp only [reduceCtorEq, not_false_eq_true])
    | some outcome =>
        rw [hcall] at h
        cases outcome with
        | waiting w'' => exact absurd h (by simp only [reduceCtorEq, not_false_eq_true])
        | returned r w'' =>
            simp only [Option.some.injEq] at h
            rw [← h]
            exact ⟨r, (configure_returned P cls w call r w'').mp hcall⟩
  · rintro ⟨r, hr⟩
    simp only [step, (configure_returned P cls w call r w').mpr hr]

/-- Running a program changes the map context by map operations, and nothing
    else. -/
theorem exec_frame (w w' : World) (ops : List (Addr × MapOp)) (h : exec w ops = some w') :
    ∃ ctx ops', runOps w.element.mapCtx ops' = some ctx ∧
      w' = ⟨{ w.element with mapCtx := ctx }, w.space⟩ := by
  unfold exec at h
  cases hpath : execPath w with
  | wild =>
      rw [hpath] at h
      exact absurd h (by simp only [reduceCtorEq, not_false_eq_true])
  | noCode =>
      simp only [hpath, Option.some.injEq] at h
      exact ⟨w.element.mapCtx, [], rfl, h.symm⟩
  | native fn code =>
      simp only [hpath, Option.map_eq_some_iff] at h
      rcases h with ⟨ctx, hops, hw⟩
      exact ⟨ctx, ops, hops, hw.symm⟩
  | interpreted program =>
      simp only [hpath, Option.map_eq_some_iff] at h
      rcases h with ⟨ctx, hops, hw⟩
      exact ⟨ctx, ops, hops, hw.symm⟩

/-- A push leaves everything but the map context where it was, and what it
    does to the context is a run of map operations. -/
theorem step_push (p : PacketRun) (w' : World) (h : step P cls w (.push p) = some w') :
    ∃ ctx ops, runOps w.element.mapCtx ops = some ctx ∧
      w' = ⟨{ w.element with mapCtx := ctx }, w.space⟩ := by
  simp only [step, push] at h
  by_cases hlost : (cls.uniqueifies && !p.unique) = true
  · simp only [hlost, if_true, Option.some.injEq] at h
    exact ⟨w.element.mapCtx, [], rfl, h.symm⟩
  rw [if_neg hlost] at h
  cases hlock : w.element.lock.rlock with
  | none =>
      rw [hlock] at h
      exact absurd h (by simp only [reduceCtorEq, not_false_eq_true])
  | some l =>
      simp only [hlock] at h
      cases hexec : exec ⟨{ w.element with lock := l }, w.space⟩ p.ops with
      | none =>
          rw [hexec] at h
          exact absurd h (by simp only [Option.map_none, reduceCtorEq, not_false_eq_true])
      | some w'' =>
          rcases exec_frame _ w'' p.ops hexec with ⟨ctx, ops, hops, hw⟩
          -- The reader that came has gone, so the lock is as it was.
          have hback := RwLock.runlock_rlock w.element.lock l hlock
          simp only [hexec, hw, Option.map_some, Option.some.injEq, hback] at h
          exact ⟨ctx, ops, hops, h.symm⟩

/-- The machine after the load of a call: it has no compiled code, and it has
    a program exactly when the load succeeded. -/
theorem loadedBy_vm (args : ConfArgs) (loaded : Loaded BpfMapCtx)
    (h : loadedBy P cls w call args = some loaded) :
    loaded.vm.jitted = none ∧ SameSetup (machineOf cls w.element) loaded.vm ∧
      (loaded.error = none → loaded.vm.insts.isSome = true) ∧
      (∀ e, loaded.error = some e → loaded.vm.insts = none) := by
  rcases ubpfUnloadCode_vm (machineOf cls w.element) w.space with ⟨hinsts, hjit, hsetup, -⟩
  rcases ubpfLoadElfEx_frame _ _ _ _ _ _ loaded h with ⟨hsame, hjitted, -⟩
  refine ⟨hjitted.trans hjit, hsetup.trans hsame, ?_, ?_⟩
  · intro hok
    rcases ubpfLoadElfEx_success _ _ _ _ _ _ loaded h hok with
      ⟨layout, s, -, -, -, -, -, hload, hvm⟩
    rcases ubpfLoad_loaded _ _ _ hload with ⟨-, -, hstored⟩
    rw [hvm, hstored]
    rfl
  · intro e herror
    rcases ubpfLoadElfEx_cases _ _ _ _ _ _ loaded h with
      ⟨e', -, hvm, -⟩ | ⟨layout, s, stop, -, -, -, -, -, ⟨e', -, -, hvm⟩ | ⟨-, hfail, hvm⟩⟩
    · rw [hvm]
      exact hinsts
    · rw [hvm]
      exact hinsts
    · rw [hvm, ubpfLoad_failed _ _ _ e (hfail.symm.trans herror)]
      exact hinsts

/-! ## A sample element

A platform small enough to evaluate: a table of argument vectors as Click
parses them and a translator for programs that load a constant and exit. The
signature check is left to whoever uses it. -/

section Sample

open LittleEndian

/-- An `Elf64_Ehdr` with its section headers right behind it. -/
def elfHeader (shnum : Nat) : Bytes :=
  elfMag ++ [2, 1, 1, 0] ++ List.replicate 8 0 ++ toLE 2 1 ++ toLE 2 247 ++ toLE 4 1 ++
    toLE 8 0 ++ toLE 8 0 ++ toLE 8 64 ++ toLE 4 0 ++ toLE 2 64 ++ toLE 2 0 ++ toLE 2 0 ++
    toLE 2 64 ++ toLE 2 shnum ++ toLE 2 0

/-- An `Elf64_Shdr`. -/
def sectionHeader (type flags offset size link info : Nat) : Bytes :=
  toLE 4 0 ++ toLE 4 type ++ toLE 8 flags ++ toLE 8 0 ++ toLE 8 offset ++ toLE 8 size ++
    toLE 4 link ++ toLE 4 info ++ toLE 8 0 ++ toLE 8 0

/-- An `Elf64_Sym`. -/
def symbol (name info shndx value size : Nat) : Bytes :=
  toLE 4 name ++ [UInt8.ofNat info, 0] ++ toLE 2 shndx ++ toLE 8 value ++ toLE 8 size

/-- An object whose `main` returns a constant: string table, symbol table and
    `mov r0, verdict; exit`. -/
def filterObject (verdict : Nat) : Bytes :=
  elfHeader 3 ++ sectionHeader shtStrtab 0 256 6 0 0 ++ sectionHeader shtSymtab 0 262 24 0 0 ++
    sectionHeader shtProgbits (shfAlloc + shfExecinstr) 286 16 0 0 ++
    ([0] ++ mainName ++ [0]) ++ symbol 1 2 2 0 16 ++
    ([0xb7, 0, 0, 0] ++ toLE 4 verdict ++ [0x95, 0, 0, 0, 0, 0, 0, 0])

/-- Argument vectors as Click parses them. -/
def sampleArgs : List (List Bytes × ConfArgs) :=
  [([helperName "ID 1", helperName "JIT false", helperName "FILE pass"],
      ⟨some 1, some false, none, some (helperName "pass"), none⟩),
    ([helperName "ID 1", helperName "JIT true", helperName "FILE pass"],
      ⟨some 1, some true, none, some (helperName "pass"), none⟩),
    ([helperName "FILE drop"], ⟨none, none, none, some (helperName "drop"), none⟩),
    ([helperName "FILE garbage"], ⟨none, none, none, some (helperName "garbage"), none⟩),
    ([helperName "JIT true", helperName "FILE drop"],
      ⟨none, some true, none, some (helperName "drop"), none⟩),
    ([helperName "FILE drop", helperName "SIGNATURE drop.sig"],
      ⟨none, none, none, some (helperName "drop"), some (helperName "drop.sig")⟩),
    ([helperName "FILE missing"], ⟨none, none, none, some (helperName "missing"), none⟩)]

/-- `mov eax, verdict; ret`. -/
def sampleTranslate : Translate := fun _ _ program =>
  match program.insts with
  | [inst, _] => some ([0xb8] ++ toLE 4 inst.imm.toNat ++ [0xc3])
  | _ => none

def samplePlatform (verify : Option (Bytes → Bytes → Bool)) : Platform where
  parseArgs conf := sampleArgs.lookup conf
  verify := verify
  translate := sampleTranslate
  allocator := Heap.firstFit 0x10000 0x1000 Heap.page_pos Heap.page_le

/-- The files of the sample: two programs, one file that is no object, and the
    sum of the second program's bytes for its signature. -/
def sampleFiles : List (Bytes × Bytes) :=
  [(helperName "pass", filterObject 2), (helperName "drop", filterObject 1),
    (helperName "garbage", [0x7f]), (helperName "drop.sig", [126])]

/-- The contents of a file, empty when there is none. -/
def sampleRead (path : Bytes) : Bytes :=
  (sampleFiles.lookup path).getD []

/-- File contents in a buffer. -/
def sampleBuffer (bytes : Bytes) : FileBuffer :=
  if h : 0x100000 + bytes.length ≤ 2 ^ 64 then ⟨0x100000, bytes, h⟩ else ⟨0, [], by decide⟩

/-- A call with these arguments, on an undisturbed file system. -/
def sampleCall (conf : List String) : ConfigureCall where
  conf := conf.map helperName
  readFile path := sampleBuffer (sampleRead path)
  readAgain := sampleRead
  readSignature := sampleRead
  created := true
  instsAddr := 0x200000
  pages := ⟨true, true⟩
  dumped := true

/-- A new element and an empty page table. -/
def sampleWorld : World :=
  ⟨Element.new ⟨0, false, false, none⟩, ⟨fun _ => false, fun _ => 0⟩⟩

/-- A test of the world a call leaves. -/
def Outcome.test (check : Result → World → Bool) : Option Outcome → Bool
  | some (.returned r w) => check r w
  | _ => false

theorem Outcome.of_test (check : Result → World → Bool) (o : Option Outcome)
    (h : Outcome.test check o = true) : ∃ r w, o = some (.returned r w) ∧ check r w = true := by
  unfold Outcome.test at h
  split at h
  · rename_i r w
    exact ⟨r, w, rfl, h⟩
  · exact absurd h Bool.false_ne_true

end Sample

end UniBPF
