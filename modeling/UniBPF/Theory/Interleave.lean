import UniBPF.Theory.Configure

/-!
# Packets During a Reconfiguration

One call of `configure` on a running element, and any number of pushes
between its steps.

The call goes through its steps one at a time, with the same step functions
as the whole call, and each push is three steps of its own: it takes the lock
for reading, runs the program, and gives the lock back. Pushes that hold the
lock do not differ in anything that matters, so the state counts them. A step
of the call that fails is not a step here, since the question is about a
reconfiguration that succeeds; run without any push the machine is the
successful call (`alone_of_success`).

The lock keeps the two apart from the unloading on: while the call holds it,
no push does (`Inv`). What it does not cover is the commit of the arguments,
which happens before. Between the commit and the lock the mode is the new one
and the program the old one. `Quiet` says that no packet is run there under a
changed mode, and `packets_atomic_iff` that this is all that can go wrong. It
is an equivalence because a change of mode is always seen: the two modes give
different kinds of path.

## Main definitions

* `RunsIn`: The packet is run by this program, in the element's mode.
* `Phase`, `Concurrent`, `cstep`: The machine.
* `PacketAtomic`: A packet is run by the old program in the old mode or by the
  new one in the new mode.
* `Quiet`: No packet is run between the commit and the lock in a new mode.
* `Inv`: What holds in each phase.

## Theorems

* `inv_cstep`: The invariant is kept.
* `packets_atomic_iff`: Every packet is atomic exactly when the run is quiet.
* `alone_of_success`: Without pushes the machine is the call.
* `runsIn_of_success`: A successful call leaves an element that runs a
  program.
-/

namespace UniBPF

/-- Packets are run by this program in the element's mode: interpreted, or as
    the native code it translates to. -/
def RunsIn (P : Platform) (w : World) (program : ProgramView) : Prop :=
  ∃ vm, w.element.vm = some vm ∧ vm.view = some program ∧
    ((w.element.jit = false ∧ execPath w = .interpreted program) ∨
      (w.element.jit = true ∧ ∃ fn code, execPath w = .native fn code ∧
        P.translate vm.jitterBufferSize .basic program = some code))

/-- Where the call is, with what it keeps in local variables. From the load on
    that includes the program it loaded. -/
inductive Phase where
  | start
  | committed
  | read (buffer : FileBuffer)
  | locked (buffer : FileBuffer)
  | unloaded (buffer : FileBuffer)
  | loaded (program : ProgramView)
  | verified (program : ProgramView)
  | compiled (program : ProgramView)
  | done (program : ProgramView)

/-- A call in the middle and the pushes that hold the lock: those that have
    not run the program yet, and those that have. -/
structure Concurrent where
  world : World
  phase : Phase
  entered : Nat
  finished : Nat

/-- The next step of the call, or a step of some push. -/
inductive CEvent where
  | configure
  | rlock
  | exec (ops : List (Addr × MapOp))
  | runlock

/-- The next step of the call; `none` where it has to wait or fails. -/
def configureStep (P : Platform) (call : ConfigureCall) (w : World) : Phase → Option (World × Phase)
  | .start =>
    match P.parseArgs call.conf with
    | some args => some (⟨commitArgs args w.element, w.space⟩, .committed)
    | none => none
  | .committed =>
    let buffer := call.readFile w.element.bpfFile
    if buffer.bytes.isEmpty then none else some (w, .read buffer)
  | .read buffer =>
    w.element.lock.wlock.map fun lock =>
      (⟨{ w.element with lock := lock }, w.space⟩, .locked buffer)
  | .locked buffer =>
    w.element.vm.map fun vm =>
      let (vm, as) := ubpfUnloadCode vm w.space
      (⟨{ w.element with vm := some vm }, as⟩, .unloaded buffer)
  | .unloaded buffer =>
    match w.element.vm with
    | none => none
    | some vm =>
      match load P call buffer vm w.element.mapCtx with
      | none => none
      | some loaded =>
        match loaded.error, loaded.vm.view with
        | none, some program =>
          some (⟨{ w.element with vm := some loaded.vm, mapCtx := loaded.ctx }, w.space⟩,
            .loaded program)
        | _, _ => none
  | .loaded program => if signatureOk P call w.element then some (w, .verified program) else none
  | .verified program =>
    match w.element.vm with
    | none => none
    | some vm =>
      match compile P call vm w with
      | (some _, _) => none
      | (none, w') => some (w', .compiled program)
  | .compiled program =>
    some (⟨{ dump call w.element with lock := w.element.lock.wunlock }, w.space⟩, .done program)
  | .done _ => none

/-- One step of the machine. -/
def cstep (P : Platform) (call : ConfigureCall) (c : Concurrent) : CEvent → Option Concurrent
  | .configure =>
    (configureStep P call c.world c.phase).map fun r => { c with world := r.1, phase := r.2 }
  | .rlock =>
    c.world.element.lock.rlock.map fun lock =>
      { c with
        world := ⟨{ c.world.element with lock := lock }, c.world.space⟩, entered := c.entered + 1 }
  | .exec ops =>
    if c.entered = 0 then none
    else
      (exec c.world ops).map fun w =>
        { c with world := w, entered := c.entered - 1, finished := c.finished + 1 }
  | .runlock =>
    if c.finished = 0 then none
    else
      some { c with
        world := ⟨{ c.world.element with lock := c.world.element.lock.runlock }, c.world.space⟩
        finished := c.finished - 1 }

/-- The call has not begun and no push is under way. -/
def Concurrent.start (w : World) : Concurrent :=
  ⟨w, .start, 0, 0⟩

/-- A packet that is run now is run as before the call, or the call is over
    and the packet is run by the program it loaded. -/
def PacketAtomic (P : Platform) (w₀ : World) (c : Concurrent) : CEvent → Prop
  | .exec _ => 0 < c.entered → execPath c.world = execPath w₀ ∨
      ∃ program, c.phase = .done program ∧ RunsIn P c.world program
  | _ => True

/-- The call has committed its arguments and not yet taken the lock. -/
def Phase.isExposed : Phase → Bool
  | .committed | .read _ => true
  | _ => false

/-- No packet is run between the commit and the lock, unless the mode stays
    what it was. -/
def Quiet (w₀ : World) (c : Concurrent) : CEvent → Prop
  | .exec _ => 0 < c.entered → c.phase.isExposed = true → c.world.element.jit = w₀.element.jit
  | _ => True

/-- The lock as so many readers hold it. -/
def heldBy : Nat → RwLock
  | 0 => .free
  | n + 1 => .reading n

/-- The parts of the world that `exec` reads beside the mode are as before. -/
structure SameCode (w₀ w : World) : Prop where
  jitFn : w.element.jitFn = w₀.element.jitFn
  vm : w.element.vm = w₀.element.vm
  space : w.space = w₀.space

/-- The call holds the lock, and no push does. -/
structure Exclusive (c : Concurrent) : Prop where
  lock : c.world.element.lock = .writing
  entered : c.entered = 0
  finished : c.finished = 0

/-- What holds in each phase. -/
def Inv (P : Platform) (w₀ : World) (c : Concurrent) : Prop :=
  match c.phase with
  | .start => SameCode w₀ c.world ∧ c.world.element.jit = w₀.element.jit ∧
      c.world.element.lock = heldBy (c.entered + c.finished)
  | .committed | .read _ => SameCode w₀ c.world ∧
      c.world.element.lock = heldBy (c.entered + c.finished)
  | .locked _ => Exclusive c
  | .unloaded _ => Exclusive c ∧ ∃ vm, c.world.element.vm = some vm ∧ vm.jitted = none
  | .loaded program | .verified program => Exclusive c ∧
      ∃ vm, c.world.element.vm = some vm ∧ vm.jitted = none ∧ vm.view = some program
  | .compiled program => Exclusive c ∧ RunsIn P c.world program
  | .done program => RunsIn P c.world program ∧
      c.world.element.lock = heldBy (c.entered + c.finished)

section Paths

/-- What `exec` runs depends on the mode, the function pointer, the machine
    and the page table. -/
theorem execPath_congr (w w' : World) (hjit : w'.element.jit = w.element.jit)
    (hsame : SameCode w w') : execPath w' = execPath w := by
  unfold execPath nativePath interpretedPath
  rw [hjit, hsame.jitFn, hsame.vm, hsame.space]

theorem runsIn_congr (P : Platform) (w w' : World) (program : ProgramView)
    (hjit : w'.element.jit = w.element.jit) (hsame : SameCode w w') (h : RunsIn P w program) :
    RunsIn P w' program := by
  unfold RunsIn at h ⊢
  rw [execPath_congr w w' hjit hsame, hsame.vm, hjit]
  exact h

/-- A change of mode is a change of path. -/
theorem execPath_mode (P : Platform) (w₀ w : World) (program : ProgramView)
    (h : RunsIn P w₀ program) (hsame : SameCode w₀ w) :
    execPath w = execPath w₀ ↔ w.element.jit = w₀.element.jit := by
  constructor
  · intro hpath
    by_contra hmode
    rcases h with ⟨vm, hvm, hview, ⟨hjit, hold⟩ | ⟨hjit, fn, code, hold, -⟩⟩
    -- The old path is interpreted, and no native branch leads to it.
    · have hnew : w.element.jit = true := by
        cases hw : w.element.jit with
        | true => rfl
        | false => exact absurd (hw.trans hjit.symm) hmode
      rw [hold] at hpath
      unfold execPath nativePath at hpath
      rw [if_pos hnew] at hpath
      split at hpath
      · split at hpath
        · split at hpath <;> exact absurd hpath (by simp only [reduceCtorEq, not_false_eq_true])
        · exact absurd hpath (by simp only [reduceCtorEq, not_false_eq_true])
      · exact absurd hpath (by simp only [reduceCtorEq, not_false_eq_true])
    -- The old path is native, which the interpreter branch never is.
    · have hnew : ¬ w.element.jit = true := fun hw => hmode (hw.trans hjit.symm)
      rw [hold] at hpath
      unfold execPath interpretedPath at hpath
      rw [if_neg hnew] at hpath
      split at hpath
      · exact absurd hpath (by simp only [reduceCtorEq, not_false_eq_true])
      · split at hpath <;> exact absurd hpath (by simp only [reduceCtorEq, not_false_eq_true])
  · intro hjit
    exact execPath_congr w₀ w hjit hsame

end Paths

theorem rlock_heldBy (n : Nat) : (heldBy n).rlock = some (heldBy (n + 1)) := by
  cases n <;> rfl

theorem runlock_heldBy (n : Nat) : (heldBy (n + 1)).runlock = heldBy n := by
  cases n <;> rfl

theorem wlock_heldBy (n : Nat) (l : RwLock) (h : (heldBy n).wlock = some l) :
    n = 0 ∧ l = .writing := by
  cases n with
  | zero => exact ⟨rfl, ((RwLock.wlock_eq_some _ l).mp h).2⟩
  | succ n => exact absurd h (by simp only [heldBy, RwLock.wlock, reduceCtorEq, not_false_eq_true])

/-- A compilation that succeeds on a machine without compiled code leaves the
    element running the program it holds. -/
theorem runsIn_compile (P : Platform) (call : ConfigureCall) (vm : Vm) (w w' : World)
    (program : ProgramView) (hjit : vm.jitted = none) (hview : vm.view = some program)
    (h : compile P call vm w = (none, w')) : RunsIn P w' program := by
  unfold compile at h
  by_cases hmode : w.element.jit = true
  · rw [if_pos hmode] at h
    simp only [Prod.mk.injEq] at h
    rcases h with ⟨herror, hw⟩
    rcases ubpfCompile_ok P.translate call.pages vm w.space program hjit hview herror with
      ⟨code, htrans, -, hvm, hread⟩
    have hsize : (ubpfCompile P.translate call.pages vm w.space).vm.jittedSize = code.length := by
      rw [hvm]
    have hfn : (ubpfCompile P.translate call.pages vm w.space).vm.jitted = some jitWindow := by
      rw [hvm]
    have hprogram : (ubpfCompile P.translate call.pages vm w.space).vm.view = some program := by
      rw [hvm]
      exact hview
    have hbuffer : (ubpfCompile P.translate call.pages vm w.space).vm.jitterBufferSize
        = vm.jitterBufferSize := by
      rw [hvm]
    rw [← hw]
    refine ⟨_, rfl, hprogram, .inr ⟨hmode, jitWindow, code, ?_, by rw [hbuffer]; exact htrans⟩⟩
    unfold execPath nativePath
    simp only [if_pos hmode, hfn, hsize, hread, if_true]
  · rw [if_neg hmode] at h
    simp only [Prod.mk.injEq, true_and] at h
    rw [← h]
    refine ⟨vm, rfl, hview, .inl ⟨Bool.not_eq_true _ ▸ hmode, ?_⟩⟩
    unfold execPath interpretedPath
    simp only [if_neg hmode, hview]

/-- The dump keeps what packets are run by. -/
theorem runsIn_dump (P : Platform) (call : ConfigureCall) (w : World) (program : ProgramView)
    (lock : RwLock) (h : RunsIn P w program) :
    RunsIn P ⟨{ dump call w.element with lock := lock }, w.space⟩ program := by
  rcases h with ⟨vm, hvm, hview, hpath⟩
  have hdump := dump_eq call w.element vm hvm
  rcases dumpedVm_view call w.element vm with ⟨hviews, hjitted, hsize, hbuffer⟩
  -- `exec` sees none of what the dump wrote.
  have hsame : execPath ⟨{ dump call w.element with lock := lock }, w.space⟩ = execPath w := by
    unfold execPath nativePath interpretedPath
    rw [hdump]
    simp only [hvm, hviews]
    cases w.element.jitFn with
    | none => rfl
    | some fn => simp only [hjitted, hsize]
  refine ⟨dumpedVm call w.element vm, by rw [hdump], by rw [hviews, hview], ?_⟩
  rw [hsame, hdump, hbuffer]
  exact hpath

section Machine

variable (P : Platform) (call : ConfigureCall) (w₀ : World)

/-- A push that holds the lock keeps the call out. -/
theorem not_exclusive_of_holds (c : Concurrent) (h : 0 < c.entered + c.finished) :
    ¬ Exclusive c := by
  intro hex
  rw [hex.entered, hex.finished] at h
  exact absurd h (Nat.lt_irrefl 0)

/-- A step of a push, which the call does not keep out: it leaves the code and
    the mode alone, and the lock and the counters in step. -/
theorem inv_reader (c c' : Concurrent) (h : Inv P w₀ c) (hphase : c'.phase = c.phase)
    (hsame : SameCode c.world c'.world) (hjit : c'.world.element.jit = c.world.element.jit)
    (hexcl : ¬ Exclusive c)
    (hlock : c.world.element.lock = heldBy (c.entered + c.finished) →
      c'.world.element.lock = heldBy (c'.entered + c'.finished)) : Inv P w₀ c' := by
  have htrans : SameCode w₀ c.world → SameCode w₀ c'.world := fun hs =>
    ⟨hsame.jitFn.trans hs.jitFn, hsame.vm.trans hs.vm, hsame.space.trans hs.space⟩
  unfold Inv at h ⊢
  rw [hphase]
  -- From the lock to the unlock the call is alone, so there is nothing to show.
  cases hp : c.phase with
  | start =>
      rw [hp] at h
      exact ⟨htrans h.1, hjit.trans h.2.1, hlock h.2.2⟩
  | committed =>
      rw [hp] at h
      exact ⟨htrans h.1, hlock h.2⟩
  | read buffer =>
      rw [hp] at h
      exact ⟨htrans h.1, hlock h.2⟩
  | locked buffer => rw [hp] at h; exact absurd h hexcl
  | unloaded buffer => rw [hp] at h; exact absurd h.1 hexcl
  | loaded program => rw [hp] at h; exact absurd h.1 hexcl
  | verified program => rw [hp] at h; exact absurd h.1 hexcl
  | compiled program => rw [hp] at h; exact absurd h.1 hexcl
  | done program =>
      rw [hp] at h
      exact ⟨runsIn_congr P c.world _ program hjit hsame h.1, hlock h.2⟩

theorem inv_rlock (c c' : Concurrent) (h : Inv P w₀ c) (hstep : cstep P call c .rlock = some c') :
    Inv P w₀ c' := by
  simp only [cstep, Option.map_eq_some_iff] at hstep
  rcases hstep with ⟨l, hl, hc⟩
  rw [← hc]
  refine inv_reader P w₀ c _ h rfl ⟨rfl, rfl, rfl⟩ rfl ?_ ?_
  -- While the call holds the lock no push can take it.
  · intro hex
    rw [hex.lock, RwLock.rlock] at hl
    exact absurd hl (by simp only [reduceCtorEq, not_false_eq_true])
  · intro hheld
    have hnext : c.entered + 1 + c.finished = c.entered + c.finished + 1 := by omega
    rw [hheld, rlock_heldBy, Option.some.injEq] at hl
    simp only [hnext, hl]

theorem inv_exec (c c' : Concurrent) (ops : List (Addr × MapOp)) (h : Inv P w₀ c)
    (hstep : cstep P call c (.exec ops) = some c') : Inv P w₀ c' := by
  simp only [cstep] at hstep
  by_cases hzero : c.entered = 0
  · rw [if_pos hzero] at hstep
    exact absurd hstep (by simp only [reduceCtorEq, not_false_eq_true])
  rw [if_neg hzero, Option.map_eq_some_iff] at hstep
  rcases hstep with ⟨w', hexec, hc⟩
  -- The program changes maps only.
  rcases exec_frame c.world w' ops hexec with ⟨ctx, -, -, hw⟩
  rw [← hc]
  refine inv_reader P w₀ c _ h rfl ?_ ?_ (not_exclusive_of_holds c (by omega)) ?_
  · rw [hw]
    exact ⟨rfl, rfl, rfl⟩
  · rw [hw]
  · intro hlock
    have hsum : c.entered - 1 + (c.finished + 1) = c.entered + c.finished := by omega
    rw [hw]
    simp only [hlock, hsum]

theorem inv_runlock (c c' : Concurrent) (h : Inv P w₀ c)
    (hstep : cstep P call c .runlock = some c') : Inv P w₀ c' := by
  simp only [cstep] at hstep
  by_cases hzero : c.finished = 0
  · rw [if_pos hzero] at hstep
    exact absurd hstep (by simp only [reduceCtorEq, not_false_eq_true])
  rw [if_neg hzero, Option.some.injEq] at hstep
  rw [← hstep]
  refine inv_reader P w₀ c _ h rfl ⟨rfl, rfl, rfl⟩ rfl (not_exclusive_of_holds c (by omega)) ?_
  intro hlock
  have hsum : c.entered + c.finished = c.entered + (c.finished - 1) + 1 := by omega
  simp only [hlock, hsum, runlock_heldBy]

/-- A step of the call. -/
theorem inv_configure (c c' : Concurrent) (h : Inv P w₀ c)
    (hstep : cstep P call c .configure = some c') : Inv P w₀ c' := by
  simp only [cstep, Option.map_eq_some_iff] at hstep
  rcases hstep with ⟨⟨w', phase'⟩, hnext, hc⟩
  rw [← hc]
  unfold Inv at h ⊢
  simp only
  cases hphase : c.phase with
  | start =>
      rw [hphase] at h hnext
      simp only [configureStep] at hnext
      cases hargs : P.parseArgs call.conf with
      | none =>
          rw [hargs] at hnext
          exact absurd hnext (by simp only [reduceCtorEq, not_false_eq_true])
      | some args =>
          -- The commit writes the mode, so only the code is as before.
          simp only [hargs, Option.some.injEq, Prod.mk.injEq] at hnext
          rw [← hnext.1, ← hnext.2]
          exact ⟨⟨h.1.jitFn, h.1.vm, h.1.space⟩, h.2.2⟩
  | committed =>
      rw [hphase] at h hnext
      simp only [configureStep] at hnext
      split at hnext
      · exact absurd hnext (by simp only [reduceCtorEq, not_false_eq_true])
      · simp only [Option.some.injEq, Prod.mk.injEq] at hnext
        rw [← hnext.1, ← hnext.2]
        exact h
  | read buffer =>
      rw [hphase] at h hnext
      simp only [configureStep, Option.map_eq_some_iff, Prod.mk.injEq] at hnext
      rcases hnext with ⟨l, hl, hw, hp⟩
      -- The lock is free, so no push is inside.
      rw [h.2] at hl
      rcases wlock_heldBy _ l hl with ⟨hnone, hwriting⟩
      rw [← hw, ← hp]
      exact ⟨hwriting, by simp only; omega, by simp only; omega⟩
  | locked buffer =>
      rw [hphase] at h hnext
      simp only [configureStep, Option.map_eq_some_iff, Prod.mk.injEq] at hnext
      -- The old code is gone, so the load starts from a machine without any.
      rcases hnext with ⟨vm, hvm, hw, hp⟩
      rw [← hw, ← hp]
      exact ⟨⟨h.lock, h.entered, h.finished⟩, _, rfl, (ubpfUnloadCode_vm vm c.world.space).2.1⟩
  | unloaded buffer =>
      rw [hphase] at h hnext
      rcases h with ⟨hex, vm, hvm, hjit⟩
      simp only [configureStep, hvm] at hnext
      cases hload : load P call buffer vm c.world.element.mapCtx with
      | none =>
          rw [hload] at hnext
          exact absurd hnext (by simp only [reduceCtorEq, not_false_eq_true])
      | some loaded =>
          simp only [hload] at hnext
          split at hnext
          · rename_i program herror hview
            simp only [Option.some.injEq, Prod.mk.injEq] at hnext
            rw [← hnext.1, ← hnext.2]
            have hframe := (ubpfLoadElfEx_frame _ _ _ _ _ _ loaded hload).2.1
            exact ⟨⟨hex.lock, hex.entered, hex.finished⟩, _, rfl, hframe.trans hjit, hview⟩
          · exact absurd hnext (by simp only [reduceCtorEq, not_false_eq_true])
  | loaded program =>
      rw [hphase] at h hnext
      simp only [configureStep] at hnext
      split at hnext
      · simp only [Option.some.injEq, Prod.mk.injEq] at hnext
        rw [← hnext.1, ← hnext.2]
        exact ⟨⟨h.1.lock, h.1.entered, h.1.finished⟩, h.2⟩
      · exact absurd hnext (by simp only [reduceCtorEq, not_false_eq_true])
  | verified program =>
      rw [hphase] at h hnext
      rcases h with ⟨hex, vm, hvm, hjit, hview⟩
      simp only [configureStep, hvm] at hnext
      cases hcompile : compile P call vm c.world with
      | mk error w'' =>
          rw [hcompile] at hnext
          cases error with
          | some e => exact absurd hnext (by simp only [reduceCtorEq, not_false_eq_true])
          | none =>
              simp only [Option.some.injEq, Prod.mk.injEq] at hnext
              have hlock := compile_lock P call vm c.world w'' none hcompile
              rw [← hnext.1, ← hnext.2]
              exact ⟨⟨hlock.trans hex.lock, hex.entered, hex.finished⟩,
                runsIn_compile P call vm c.world w'' program hjit hview hcompile⟩
  | compiled program =>
      rw [hphase] at h hnext
      simp only [configureStep, Option.some.injEq, Prod.mk.injEq] at hnext
      rw [← hnext.1, ← hnext.2]
      -- The unlock lets the pushes in again, and there are none yet.
      refine ⟨runsIn_dump P call c.world program _ h.2, ?_⟩
      simp only [h.1.lock, RwLock.wunlock, h.1.entered, h.1.finished, heldBy]
  | done program =>
      rw [hphase] at hnext
      exact absurd hnext (by simp only [configureStep, reduceCtorEq, not_false_eq_true])

/-- The invariant is kept by every step of the machine. -/
theorem inv_cstep (c c' : Concurrent) (e : CEvent) (h : Inv P w₀ c)
    (hstep : cstep P call c e = some c') : Inv P w₀ c' := by
  cases e with
  | configure => exact inv_configure P call w₀ c c' h hstep
  | rlock => exact inv_rlock P call w₀ c c' h hstep
  | exec ops => exact inv_exec P call w₀ c c' ops h hstep
  | runlock => exact inv_runlock P call w₀ c c' h hstep

/-- One step: a packet is atomic exactly when it is not run under a new mode
    between the commit and the lock. -/
theorem atomic_step_iff (old : ProgramView) (hold : RunsIn P w₀ old) (c : Concurrent) (e : CEvent)
    (h : Inv P w₀ c) : PacketAtomic P w₀ c e ↔ Quiet w₀ c e := by
  cases e with
  | configure => exact Iff.rfl
  | rlock => exact Iff.rfl
  | runlock => exact Iff.rfl
  | exec ops =>
      by_cases hzero : c.entered = 0
      · exact ⟨fun _ hpos => absurd hpos (by omega), fun _ hpos => absurd hpos (by omega)⟩
      -- A packet is inside, so the writer cannot be.
      have hexcl : ¬ Exclusive c := fun hex => hzero hex.entered
      unfold Inv at h
      unfold PacketAtomic Quiet
      cases hphase : c.phase with
      | start =>
          rw [hphase] at h
          have hpath := execPath_congr w₀ c.world h.2.1 h.1
          exact ⟨fun _ _ hno => absurd hno Bool.false_ne_true, fun _ _ => .inl hpath⟩
      | committed =>
          rw [hphase] at h
          -- The options are written, the program is still the old one.
          have hmode := execPath_mode P w₀ c.world old hold h.1
          simp only [reduceCtorEq, false_and, exists_false, or_false, hmode, Phase.isExposed,
            forall_const]
      | read buffer =>
          rw [hphase] at h
          have hmode := execPath_mode P w₀ c.world old hold h.1
          simp only [reduceCtorEq, false_and, exists_false, or_false, hmode, Phase.isExposed,
            forall_const]
      | locked buffer => rw [hphase] at h; exact absurd h hexcl
      | unloaded buffer => rw [hphase] at h; exact absurd h.1 hexcl
      | loaded program => rw [hphase] at h; exact absurd h.1 hexcl
      | verified program => rw [hphase] at h; exact absurd h.1 hexcl
      | compiled program => rw [hphase] at h; exact absurd h.1 hexcl
      | done program =>
          rw [hphase] at h
          exact ⟨fun _ _ hno => absurd hno Bool.false_ne_true,
            fun _ _ => .inr ⟨program, rfl, h.1⟩⟩

/-- For an element that runs a program, and every interleaving of one
    reconfiguration with any number of pushes: each packet is run by the old
    program in the old mode or by the new one in the new mode, exactly when
    none is run between the commit of the arguments and the lock under a
    changed mode. -/
theorem packets_atomic_iff (old : ProgramView) (hold : RunsIn P w₀ old)
    (hfree : w₀.element.lock = .free) (es : List CEvent) :
    Steps.Along (cstep P call) (PacketAtomic P w₀) (Concurrent.start w₀) es ↔
      Steps.Along (cstep P call) (Quiet w₀) (Concurrent.start w₀) es := by
  have hstart : Inv P w₀ (Concurrent.start w₀) := ⟨⟨rfl, rfl, rfl⟩, rfl, hfree⟩
  exact Steps.along_iff (cstep P call) (PacketAtomic P w₀) (Quiet w₀) (Inv P w₀)
    (fun c e h => atomic_step_iff P w₀ old hold c e h)
    (fun c e c' h _ hstep => inv_cstep P call w₀ c c' e h hstep) es _ hstart

/-- The end of a successful call: what was loaded is what packets are run
    by. -/
theorem runsIn_finish (w w' : World) (vm : Vm) (program : ProgramView) (hjit : vm.jitted = none)
    (hview : vm.view = some program) (h : finish P call vm w = (.success, w')) :
    RunsIn P w' program ∧ w'.element.lock = w.element.lock.wunlock := by
  rcases finish_success P call vm w w' h with ⟨-, w'', hcompile, hw⟩
  have hruns := runsIn_compile P call vm w w'' program hjit hview hcompile
  rw [hw, ← compile_lock P call vm w w'' none hcompile]
  exact ⟨runsIn_dump P call w'' program _ hruns, rfl⟩

/-- The program a successful call has loaded. -/
theorem loaded_of_success (cls : ElementClass) (w w' : World)
    (h : configure P cls w call = some (.returned .success w')) :
    ∃ args loaded program, Entered P w call args ∧ loadedBy P cls w call args = some loaded ∧
      loaded.error = none ∧ loaded.vm.view = some program := by
  rcases returns_success P cls w call w' ((configure_returned P cls w call .success w').mp h) with
    ⟨args, loaded, hin, hload, herror⟩
  have hsome := (loadedBy_vm P cls w call args loaded hload).2.2.1 herror
  rcases view_of_insts loaded.vm hsome with ⟨program, hview⟩
  exact ⟨args, loaded, program, hin, hload, herror, hview⟩

/-- A successful call leaves an element that runs a program and whose lock is
    free. -/
theorem runsIn_of_success (cls : ElementClass) (w w' : World)
    (h : configure P cls w call = some (.returned .success w')) :
    (∃ program, RunsIn P w' program) ∧ w'.element.lock = .free := by
  rcases loaded_of_success P call cls w w' h with
    ⟨args, loaded, program, hin, hload, herror, hview⟩
  have hjit := (loadedBy_vm P cls w call args loaded hload).1
  rw [configure_entered P cls w call args hin] at h
  simp only [hload, herror, Option.some.injEq, Outcome.returned.injEq] at h
  have hend := runsIn_finish P call _ w' loaded.vm program hjit hview (Prod.ext h.1 h.2)
  exact ⟨⟨program, hend.1⟩, hend.2⟩

/-- The steps of the call up to the signature, when nobody pushes. -/
theorem alone_loaded (cls : ElementClass) (w : World) (args : ConfArgs) (vm : Vm)
    (loaded : Loaded BpfMapCtx) (program : ProgramView) (hvm : w.element.vm = some vm)
    (hin : Entered P w call args) (hload : loadedBy P cls w call args = some loaded)
    (herror : loaded.error = none) (hview : loaded.vm.view = some program) :
    Steps.run (cstep P call) (Concurrent.start w) (List.replicate 5 .configure)
      = some ⟨⟨{ commitArgs args w.element with
            lock := .writing, vm := some loaded.vm, mapCtx := loaded.ctx },
          (unloaded cls w).2⟩, .loaded program, 0, 0⟩ := by
  have hfile : (call.readFile (commitArgs args w.element).bpfFile).bytes.isEmpty = false :=
    List.isEmpty_eq_false_iff.mpr hin.readable
  have hlock : (commitArgs args w.element).lock.wlock = some .writing := by
    simp only [commitArgs, hin.lockFree, RwLock.wlock]
  have hmachine : (commitArgs args w.element).vm = some vm := hvm
  have hctx : (commitArgs args w.element).mapCtx = contextOf w.element := by
    simp only [contextOf, hvm, Option.isSome_some, if_true, commitArgs]
  have hunload : unloaded cls w = ubpfUnloadCode vm w.space := by
    simp only [unloaded, machineOf, hvm, Option.getD_some]
  rw [loadedBy, hunload, fileOf, ← hctx] at hload
  simp only [List.replicate, Steps.run, cstep, Concurrent.start, configureStep, hin.parsed,
    Option.map_some, hfile, Bool.false_eq_true, if_false, hlock, hmachine, hload, herror, hview,
    hunload]

/-- The last three steps of the call, when nobody pushes. -/
theorem alone_finish (w w' : World) (vm : Vm) (program : ProgramView)
    (hvm : w.element.vm = some vm) (h : finish P call vm w = (.success, w')) :
    Steps.run (cstep P call) ⟨w, .loaded program, 0, 0⟩ (List.replicate 3 .configure)
      = some ⟨w', .done program, 0, 0⟩ := by
  rcases finish_success P call vm w w' h with ⟨hsig, w'', hcompile, hw⟩
  simp only [List.replicate, Steps.run, cstep, configureStep, hsig, if_true, Option.map_some, hvm,
    hcompile, hw]

/-- Without pushes the machine is the successful call. -/
theorem alone_of_success (cls : ElementClass) (w w' : World) (hvm : w.element.vm.isSome = true)
    (h : configure P cls w call = some (.returned .success w')) :
    ∃ program, Steps.run (cstep P call) (Concurrent.start w) (List.replicate 8 .configure)
      = some ⟨w', .done program, 0, 0⟩ := by
  rcases Option.isSome_iff_exists.mp hvm with ⟨vm, hvm⟩
  rcases loaded_of_success P call cls w w' h with
    ⟨args, loaded, program, hin, hload, herror, hview⟩
  refine ⟨program, ?_⟩
  have hpre := alone_loaded P call cls w args vm loaded program hvm hin hload herror hview
  have hsplit : List.replicate 8 CEvent.configure
      = List.replicate 5 .configure ++ List.replicate 3 .configure := rfl
  rw [configure_entered P cls w call args hin] at h
  simp only [hload, herror, Option.some.injEq, Outcome.returned.injEq] at h
  rw [hsplit, Steps.run_append _ _ _ _ _ hpre]
  -- `finish` puts the machine in place itself, so the one it finds is irrelevant.
  exact alone_finish P call _ w' loaded.vm program rfl (Prod.ext h.1 h.2)

end Machine

/-- The sample element, reconfigured to another program in another mode while
    a packet comes between the commit and the lock. -/
theorem sample_exposed :
    ∃ w₀, configure (samplePlatform none) .bpfilter sampleWorld
        (sampleCall ["ID 1", "JIT false", "FILE pass"]) = some (.returned .success w₀) ∧
      (∃ w', configure (samplePlatform none) .bpfilter w₀ (sampleCall ["JIT true", "FILE drop"])
        = some (.returned .success w')) ∧
      ∃ c, Steps.run (cstep (samplePlatform none) (sampleCall ["JIT true", "FILE drop"]))
          (Concurrent.start w₀) [.configure, .rlock] = some c ∧ 0 < c.entered ∧
        c.phase.isExposed = true ∧ execPath c.world = .wild := by
  have htest : Outcome.test (fun r w₀ => r == .success &&
      Outcome.test (fun r' _ => r' == .success)
        (configure (samplePlatform none) .bpfilter w₀ (sampleCall ["JIT true", "FILE drop"])) &&
      (match Steps.run (cstep (samplePlatform none) (sampleCall ["JIT true", "FILE drop"]))
          (Concurrent.start w₀) [.configure, .rlock] with
        | some c => decide (0 < c.entered) && c.phase.isExposed && execPath c.world == .wild
        | none => false))
      (configure (samplePlatform none) .bpfilter sampleWorld
        (sampleCall ["ID 1", "JIT false", "FILE pass"])) = true := by
    decide +kernel
  rcases Outcome.of_test _ _ htest with ⟨r, w₀, hcall, hcheck⟩
  simp only [Bool.and_eq_true, beq_iff_eq] at hcheck
  rcases hcheck with ⟨⟨hr, hsecond⟩, hrun⟩
  rcases Outcome.of_test _ _ hsecond with ⟨r', w', hcall', hr'⟩
  rw [beq_iff_eq] at hr'
  rw [hr] at hcall
  rw [hr'] at hcall'
  cases hc : Steps.run (cstep (samplePlatform none) (sampleCall ["JIT true", "FILE drop"]))
      (Concurrent.start w₀) [.configure, .rlock] with
  | none =>
      rw [hc] at hrun
      exact absurd hrun Bool.false_ne_true
  | some c =>
      simp only [hc, Bool.and_eq_true, beq_iff_eq, decide_eq_true_eq] at hrun
      exact ⟨w₀, hcall, ⟨w', hcall'⟩, c, hc, hrun.1.1, hrun.1.2, hrun.2⟩

theorem packets_atomic_sample :
    ∃ w₀ old, RunsIn (samplePlatform none) w₀ old ∧ w₀.element.lock = .free ∧
      (Steps.Along (cstep (samplePlatform none) (sampleCall ["FILE drop"]))
          (PacketAtomic (samplePlatform none) w₀) (Concurrent.start w₀)
          [.configure, .rlock, .exec []] ↔
        Steps.Along (cstep (samplePlatform none) (sampleCall ["FILE drop"])) (Quiet w₀)
          (Concurrent.start w₀) [.configure, .rlock, .exec []]) := by
  rcases sample_exposed with ⟨w₀, hcall, -, -⟩
  rcases runsIn_of_success _ _ _ _ w₀ hcall with ⟨⟨old, hold⟩, hfree⟩
  exact ⟨w₀, old, hold, hfree, packets_atomic_iff _ _ w₀ old hold hfree _⟩

/-- A packet that comes in after the commit is sent through a function pointer
    nobody compiled anything for. -/
theorem packet_not_atomic :
    ∃ w₀ c, (∃ old, RunsIn (samplePlatform none) w₀ old) ∧
      (∃ w', configure (samplePlatform none) .bpfilter w₀ (sampleCall ["JIT true", "FILE drop"])
        = some (.returned .success w')) ∧
      Steps.run (cstep (samplePlatform none) (sampleCall ["JIT true", "FILE drop"]))
          (Concurrent.start w₀) [.configure, .rlock] = some c ∧
      execPath c.world = .wild ∧ ¬ PacketAtomic (samplePlatform none) w₀ c (.exec []) := by
  rcases sample_exposed with ⟨w₀, hcall, hsecond, c, hrun, hentered, hexposed, hwild⟩
  rcases runsIn_of_success _ _ _ _ w₀ hcall with ⟨⟨old, hold⟩, hfree⟩
  refine ⟨w₀, c, ⟨old, hold⟩, hsecond, hrun, hwild, ?_⟩
  intro hatomic
  rcases hatomic hentered with hpath | ⟨program, hdone, -⟩
  · rw [hwild] at hpath
    rcases hold with ⟨vm, -, -, ⟨-, hexec⟩ | ⟨-, fn, code, hexec, -⟩⟩
    · rw [hexec] at hpath
      exact absurd hpath (by simp only [reduceCtorEq, not_false_eq_true])
    · rw [hexec] at hpath
      exact absurd hpath (by simp only [reduceCtorEq, not_false_eq_true])
  · rw [hdone] at hexposed
    exact absurd hexposed Bool.false_ne_true

end UniBPF
